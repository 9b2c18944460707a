import Mathlib.Data.Finset.Card
import Mathlib.Data.List.Dedup
import Mathlib.Data.List.Forall2
import Mathlib.Data.List.Nodup
import Unbound.Name.Interner

/-!
# Names stand for texts, one for one

Interning changes what can be looked up at one name only, the one that is handed out. From this one
equation the laws of whole runs follow.
-/

set_option autoImplicit false

namespace Unbound

section

variable {Failure First Second : Type} {outcome : Except Failure First} {failure : Failure}

theorem bind_eq_ok_iff {next : First → Except Failure Second} {result : Second} :
    outcome.bind next = .ok result ↔ ∃ first, outcome = .ok first ∧ next first = .ok result := by
  cases outcome with
  | error other => simp [Except.bind]
  | ok first => simp [Except.bind]

theorem bind_eq_error_iff {next : First → Except Failure Second} :
    outcome.bind next = .error failure ↔
      outcome = .error failure ∨ ∃ first, outcome = .ok first ∧ next first = .error failure := by
  cases outcome with
  | error other => simp [Except.bind]
  | ok first => simp [Except.bind]

theorem map_eq_ok_iff {make : First → Second} {result : Second} :
    outcome.map make = .ok result ↔ ∃ first, outcome = .ok first ∧ make first = result := by
  cases outcome with
  | error other => simp [Except.map]
  | ok first => simp [Except.map]

theorem map_eq_error_iff {make : First → Second} :
    outcome.map make = .error failure ↔ outcome = .error failure := by
  cases outcome with
  | error other => simp [Except.map]
  | ok first => simp [Except.map]

end

namespace Interner

variable {interner after last : Interner} {text : String} {name : Name}

def held (interner : Interner) (shard : Fin Name.shardCount) : Array String :=
  interner.shards.get shard

theorem held_insertNew (fresh : interner.find? text = none)
    (room : (interner.held (shardOf text)).size ≤ Name.maxIndex) (shard : Fin Name.shardCount) :
    (interner.insertNew text fresh room).held shard =
      if shardOf text = shard then (interner.held shard).push text else interner.held shard :=
  interner.shards.getElem_append text shard

theorem lookup_eq (interner : Interner) (name : Name) :
    interner.lookup name =
      match (interner.held name.shard)[name.index]? with
      | some text => .ok text
      | none => .error (.name name) := rfl

theorem find?_eq (interner : Interner) (text : String) :
    interner.find? text =
      ((interner.held (shardOf text)).idxOf? text).map (Name.ofParts (shardOf text)) := rfl

theorem lookup_insertNew (fresh : interner.find? text = none)
    (room : (interner.held (shardOf text)).size ≤ Name.maxIndex) (other : Name) :
    (interner.insertNew text fresh room).lookup other =
      if other = .ofParts (shardOf text) (interner.held (shardOf text)).size then .ok text
      else interner.lookup other := by
  rw [lookup_eq, lookup_eq, held_insertNew]
  simp only [Name.eq_ofParts_iff room]
  by_cases here : shardOf text = other.shard
  · rw [if_pos here, Array.getElem?_push, here]
    by_cases next : other.index = (interner.held other.shard).size
    · rw [if_pos next, if_pos ⟨rfl, next⟩]
    · rw [if_neg next, if_neg (fun both => next both.2)]
  · rw [if_neg here, if_neg (fun both => here both.1.symm)]

theorem lookup_next_ne_ok (shard : Fin Name.shardCount)
    (room : (interner.held shard).size ≤ Name.maxIndex) (found : String) :
    interner.lookup (.ofParts shard (interner.held shard).size) ≠ .ok found := by
  intro known
  rw [lookup_eq, Name.shard_ofParts _ _ room, Name.index_ofParts _ _ room,
    Array.getElem?_size] at known
  cases known

/-- A text that is known has its name already; a new one gets the next name of its shard. -/
theorem intern_cases (done : interner.intern text = .ok (name, after)) :
    interner.find? text = some name ∧ after = interner ∨
      ∃ (fresh : interner.find? text = none)
        (room : (interner.held (shardOf text)).size ≤ Name.maxIndex),
        name = .ofParts (shardOf text) (interner.held (shardOf text)).size ∧
          after = interner.insertNew text fresh room := by
  rw [intern] at done
  split at done
  case h_1 known found =>
    cases done
    exact Or.inl ⟨found, rfl⟩
  case h_2 fresh =>
    dsimp only at done
    split at done
    case isTrue room =>
      cases done
      exact Or.inr ⟨fresh, room, rfl, rfl⟩
    case isFalse => cases done

/-- After a text was interned, its name leads to it and every other name where it led before. -/
theorem lookup_intern (done : interner.intern text = .ok (name, after)) (other : Name) :
    after.lookup other = if other = name then .ok text else interner.lookup other := by
  rcases intern_cases done with ⟨found, rfl⟩ | ⟨fresh, room, rfl, rfl⟩
  · split
    case isTrue same => exact same ▸ find?_eq_some_iff.mp found
    case isFalse => rfl
  · exact lookup_insertNew fresh room other

theorem intern_of_lookup (known : interner.lookup name = .ok text) :
    interner.intern text = .ok (name, interner) := by
  have found := find?_eq_some_iff.mpr known
  rw [intern]
  split
  case h_1 other same =>
    rw [found] at same
    rw [Option.some.inj same]
  case h_2 missing =>
    rw [found] at missing
    cases missing

def Extends (after before : Interner) : Prop :=
  ∀ name text, before.lookup name = .ok text → after.lookup name = .ok text

theorem extends_refl (interner : Interner) : interner.Extends interner := by
  intro name text known
  exact known

theorem Extends.trans (later : last.Extends after) (earlier : after.Extends interner) :
    last.Extends interner := by
  intro name text known
  exact later name text (earlier name text known)

theorem extends_of_intern (done : interner.intern text = .ok (name, after)) :
    after.Extends interner := by
  intro other found known
  rcases intern_cases done with ⟨_, rfl⟩ | ⟨fresh, room, rfl, rfl⟩
  · exact known
  · have apart : other ≠ .ofParts (shardOf text) (interner.held (shardOf text)).size := by
      intro same
      exact lookup_next_ne_ok (shardOf text) room found (same ▸ known)
    rw [lookup_insertNew, if_neg apart]
    exact known

theorem name_eq_of_lookup_eq {left right : Name} (first : interner.lookup left = .ok text)
    (second : interner.lookup right = .ok text) : left = right := by
  have found := find?_eq_some_iff.mpr first
  rw [find?_eq_some_iff.mpr second] at found
  exact (Option.some.inj found).symm

theorem lookup_empty (interner : Interner) : interner.lookup .empty = .ok "" := by
  have first : reservedShards[Name.empty.shard].toList[0]? = some "" := by decide +kernel
  have index : Name.empty.index = 0 := by decide
  obtain ⟨rest, stored⟩ := interner.reserved Name.empty.shard
  have bound := (List.getElem?_eq_some_iff.mp first).choose
  rw [lookup_eq_ok_iff, index, ← Array.getElem?_toList, ← stored,
    List.getElem?_append_left bound, first]

theorem eq_empty_iff_of_lookup (known : interner.lookup name = .ok text) :
    name = .empty ↔ text = "" := by
  constructor
  · intro same
    rw [same, lookup_empty] at known
    exact (Except.ok.inj known).symm
  · intro same
    exact name_eq_of_lookup_eq (same ▸ known) interner.lookup_empty

theorem mem_held_iff {shard : Fin Name.shardCount} :
    text ∈ (interner.held shard).toList ↔
      shardOf text = shard ∧ (interner.find? text).isSome := by
  constructor
  · intro stored
    have here := interner.placed shard text stored
    subst here
    refine ⟨rfl, ?_⟩
    simpa [find?_eq] using stored
  · intro known
    obtain ⟨rfl, found⟩ := known
    simpa [find?_eq] using found

theorem mem_texts_iff_isSome : text ∈ interner.texts ↔ (interner.find? text).isSome := by
  rw [texts, List.mem_flatMap]
  constructor
  · intro stored
    obtain ⟨content, member, inside⟩ := stored
    obtain ⟨shard, bound, rfl⟩ := List.mem_iff_getElem.mp member
    have few : shard < Name.shardCount := by simpa using bound
    have held : text ∈ (interner.held ⟨shard, few⟩).toList := inside
    exact (mem_held_iff.mp held).2
  · intro known
    have listed : interner.shards[shardOf text] ∈ interner.shards.toList := by simp
    exact ⟨interner.held (shardOf text), listed, mem_held_iff.mpr ⟨rfl, known⟩⟩

theorem mem_texts_iff : text ∈ interner.texts ↔ ∃ name, interner.lookup name = .ok text := by
  simp only [mem_texts_iff_isSome, Option.isSome_iff_exists, find?_eq_some_iff]

theorem nodup_texts (interner : Interner) : interner.texts.Nodup := by
  rw [texts, List.nodup_flatMap]
  constructor
  · intro content member
    obtain ⟨shard, bound, rfl⟩ := List.mem_iff_getElem.mp member
    have few : shard < Name.shardCount := by simpa using bound
    exact interner.distinct ⟨shard, few⟩
  · rw [List.pairwise_iff_getElem]
    intro left right _ bound before text here there
    have few : right < Name.shardCount := by simpa using bound
    have first := interner.placed ⟨left, Nat.lt_trans before few⟩ text here
    have second := interner.placed ⟨right, few⟩ text there
    have same := congrArg Fin.val (first.symm.trans second)
    exact Nat.ne_of_lt before same

theorem mem_texts_initial : text ∈ initial.texts ↔ text ∈ "" :: reservedWords := by
  have stored : text ∈ (initial.held (shardOf text)).toList ↔ text ∈ "" :: reservedWords := by
    have same : (initial.held (shardOf text)).toList = reservedShards[shardOf text].toList := rfl
    rw [same, toList_reservedShards, List.mem_filter]
    simp
  rw [mem_texts_iff_isSome, ← stored, mem_held_iff]
  simp

theorem mem_texts_intern (done : interner.intern text = .ok (name, after)) (other : String) :
    other ∈ after.texts ↔ other ∈ text :: interner.texts := by
  have handedOut : after.lookup name = .ok text := by
    rw [lookup_intern done, if_pos rfl]
  rw [List.mem_cons, mem_texts_iff, mem_texts_iff]
  constructor
  · intro known
    obtain ⟨there, known⟩ := known
    rw [lookup_intern done] at known
    split at known
    case isTrue => exact Or.inl (Except.ok.inj known).symm
    case isFalse => exact Or.inr ⟨there, known⟩
  · intro known
    rcases known with same | ⟨there, known⟩
    · exact ⟨name, same ▸ handedOut⟩
    · exact ⟨there, extends_of_intern done there other known⟩

/-- One more than before if the text is new, and as many as before if not. -/
theorem size_intern (done : interner.intern text = .ok (name, after)) :
    after.size = interner.size + (interner.find? text).isNone.toNat := by
  have known := mem_texts_intern done
  cases found : interner.find? text with
  | some there =>
      have old : text ∈ interner.texts := mem_texts_iff_isSome.mpr (found ▸ rfl)
      have same : after.texts.Perm interner.texts := by
        apply (List.perm_ext_iff_of_nodup after.nodup_texts interner.nodup_texts).mpr
        intro other
        rw [known, List.mem_cons, or_iff_right_iff_imp]
        rintro rfl
        exact old
      exact same.length_eq
  | none =>
      have new : text ∉ interner.texts := by
        rw [mem_texts_iff_isSome, found]
        exact Bool.false_ne_true
      have same : after.texts.Perm (text :: interner.texts) := by
        apply (List.perm_ext_iff_of_nodup after.nodup_texts _).mpr known
        exact List.nodup_cons.mpr ⟨new, interner.nodup_texts⟩
      exact same.length_eq

/-! ### Room -/

/-- The texts find room in their shards, each text counted once. -/
def Fit (texts : List String) : Prop :=
  ∀ shard : Fin Name.shardCount,
    (texts.filter (fun text => shardOf text = shard)).dedup.length ≤ Name.shardWidth

theorem length_dedup_le_of_subset {first second : List String} (inside : first ⊆ second) :
    first.dedup.length ≤ second.dedup.length := by
  have kept : first.dedup ⊆ second.dedup := by
    intro text member
    exact List.mem_dedup.mpr (inside (List.mem_dedup.mp member))
  exact ((List.nodup_dedup first).subperm kept).length_le

theorem Fit.of_subset {first second : List String} (fit : Fit second) (inside : first ⊆ second) :
    Fit first := by
  intro shard
  exact Nat.le_trans (length_dedup_le_of_subset (List.filter_subset _ inside)) (fit shard)

theorem filter_texts_perm (interner : Interner) (shard : Fin Name.shardCount) :
    (interner.texts.filter (fun text => shardOf text = shard)).Perm
      (interner.held shard).toList := by
  have distinct : (interner.held shard).toList.Nodup := interner.distinct shard
  apply (List.perm_ext_iff_of_nodup (interner.nodup_texts.filter _) distinct).mpr
  intro text
  rw [List.mem_filter, mem_texts_iff_isSome, mem_held_iff, decide_eq_true_eq, and_comm]

theorem fit_texts (interner : Interner) : Fit interner.texts := by
  intro shard
  rw [List.dedup_eq_self.mpr (interner.nodup_texts.filter _),
    (interner.filter_texts_perm shard).length_eq]
  exact interner.bounded shard

theorem intern_succeeds_iff :
    (∃ outcome, interner.intern text = .ok outcome) ↔ Fit (text :: interner.texts) := by
  constructor
  · intro succeeds
    obtain ⟨⟨name, after⟩, done⟩ := succeeds
    apply after.fit_texts.of_subset
    intro other member
    exact (mem_texts_intern done other).mpr member
  · intro fit
    rw [intern]
    split
    case h_1 name found => exact ⟨(name, interner), rfl⟩
    case h_2 fresh =>
      have unknown : text ∉ interner.texts.filter (fun other => shardOf other = shardOf text) := by
        intro member
        have known := mem_texts_iff_isSome.mp (List.mem_filter.mp member).1
        rw [fresh] at known
        cases known
      have count := fit (shardOf text)
      have here : decide (shardOf text = shardOf text) = true := decide_eq_true rfl
      rw [List.filter_cons, if_pos here, List.dedup_cons_of_notMem unknown, List.length_cons,
        List.dedup_eq_self.mpr (interner.nodup_texts.filter _),
        (interner.filter_texts_perm (shardOf text)).length_eq] at count
      have room : (interner.held (shardOf text)).size ≤ Name.maxIndex := Nat.le_sub_one_of_lt count
      exact ⟨_, dif_pos room⟩

/-! ### Runs -/

def internAll (interner : Interner) (texts : List String) :
    Except ShardFull (List Name × Interner) :=
  (texts.mapM Unbound.intern).run interner

variable {texts : List String} {names : List Name}

theorem internAll_cons :
    interner.internAll (text :: texts) = (interner.intern text).bind fun first =>
      (first.2.internAll texts).map fun rest => (first.1 :: rest.1, rest.2) := by
  rw [internAll, List.mapM_cons]
  change (interner.intern text).bind _ = _
  apply congrArg
  funext first
  change (first.2.internAll texts).bind _ = _
  cases first.2.internAll texts with
  | error failure => rfl
  | ok rest => rfl

theorem internAll_cons_eq_ok_iff :
    interner.internAll (text :: texts) = .ok (names, last) ↔
      ∃ name after rest, interner.intern text = .ok (name, after) ∧
        after.internAll texts = .ok (rest, last) ∧ names = name :: rest := by
  rw [internAll_cons, bind_eq_ok_iff]
  simp only [map_eq_ok_iff, Prod.exists, Prod.mk.injEq]
  constructor
  · intro done
    obtain ⟨name, after, interned, rest, _, continued, rfl, rfl⟩ := done
    exact ⟨name, after, rest, interned, continued, rfl⟩
  · intro parts
    obtain ⟨name, after, rest, interned, continued, rfl⟩ := parts
    exact ⟨name, after, interned, rest, last, continued, rfl, rfl⟩

theorem internAll_append (interner : Interner) (texts more : List String) :
    interner.internAll (texts ++ more) = (interner.internAll texts).bind fun first =>
      (first.2.internAll more).map fun second => (first.1 ++ second.1, second.2) := by
  induction texts generalizing interner with
  | nil =>
      change interner.internAll more = (interner.internAll more).map _
      cases interner.internAll more with
      | error failure => rfl
      | ok second => rfl
  | cons text texts induction =>
      rw [List.cons_append, internAll_cons, internAll_cons]
      cases interner.intern text with
      | error failure => rfl
      | ok first =>
          change (first.2.internAll (texts ++ more)).map _ =
            ((first.2.internAll texts).map _).bind _
          rw [induction]
          cases first.2.internAll texts with
          | error failure => rfl
          | ok rest =>
              change ((rest.2.internAll more).map _).map _ = (rest.2.internAll more).map _
              cases rest.2.internAll more with
              | error failure => rfl
              | ok second => rfl

theorem internAll_append_eq_ok_iff {more : List String} :
    interner.internAll (texts ++ more) = .ok (names, last) ↔
      ∃ first after second, interner.internAll texts = .ok (first, after) ∧
        after.internAll more = .ok (second, last) ∧ names = first ++ second := by
  rw [internAll_append, bind_eq_ok_iff]
  simp only [map_eq_ok_iff, Prod.exists, Prod.mk.injEq]
  constructor
  · intro done
    obtain ⟨first, after, begun, second, _, continued, rfl, rfl⟩ := done
    exact ⟨first, after, second, begun, continued, rfl⟩
  · intro parts
    obtain ⟨first, after, second, begun, continued, rfl⟩ := parts
    exact ⟨first, after, begun, second, last, continued, rfl, rfl⟩

theorem internAll_append_eq_error_iff {more : List String} {failure : ShardFull} :
    interner.internAll (texts ++ more) = .error failure ↔
      interner.internAll texts = .error failure ∨
        ∃ first after, interner.internAll texts = .ok (first, after) ∧
          after.internAll more = .error failure := by
  rw [internAll_append, bind_eq_error_iff]
  simp only [map_eq_error_iff, Prod.exists]

theorem extends_of_internAll (done : interner.internAll texts = .ok (names, last)) :
    last.Extends interner := by
  induction texts generalizing interner names with
  | nil =>
      cases done
      exact extends_refl last
  | cons text texts induction =>
      obtain ⟨name, after, rest, interned, continued, _⟩ := internAll_cons_eq_ok_iff.mp done
      exact (induction continued).trans (extends_of_intern interned)

theorem forall₂_lookup_internAll (done : interner.internAll texts = .ok (names, last)) :
    List.Forall₂ (fun text name => last.lookup name = .ok text) texts names := by
  induction texts generalizing interner names with
  | nil =>
      cases done
      exact .nil
  | cons text texts induction =>
      obtain ⟨name, after, rest, interned, continued, rfl⟩ := internAll_cons_eq_ok_iff.mp done
      have handedOut : after.lookup name = .ok text := by
        rw [lookup_intern interned, if_pos rfl]
      exact .cons (extends_of_internAll continued name text handedOut) (induction continued)

theorem lookup_internAll (done : interner.internAll texts = .ok (names, last)) (other : Name) :
    (∃ found, last.lookup other = .ok found) ↔
      other ∈ names ∨ ∃ found, interner.lookup other = .ok found := by
  induction texts generalizing interner names with
  | nil =>
      cases done
      simp
  | cons text texts induction =>
      obtain ⟨name, after, rest, interned, continued, rfl⟩ := internAll_cons_eq_ok_iff.mp done
      rw [induction continued, lookup_intern interned, List.mem_cons]
      by_cases same : other = name <;> simp [same]

theorem mem_texts_internAll (done : interner.internAll texts = .ok (names, last))
    (other : String) : other ∈ last.texts ↔ other ∈ texts ++ interner.texts := by
  induction texts generalizing interner names with
  | nil =>
      cases done
      rfl
  | cons text texts induction =>
      obtain ⟨name, after, rest, interned, continued, _⟩ := internAll_cons_eq_ok_iff.mp done
      rw [induction continued, List.mem_append, mem_texts_intern interned, List.mem_cons,
        List.cons_append, List.mem_cons, List.mem_append, or_left_comm]

/-- Which texts of a run are new when their turn comes. -/
def news (interner : Interner) : List String → List Bool
  | [] => []
  | text :: texts =>
      match interner.intern text with
      | .ok (_, after) => (interner.find? text).isNone :: after.news texts
      | .error _ => []

/-- The size is what a counter shows that goes up by one for each new text. -/
theorem size_internAll_eq_count (done : interner.internAll texts = .ok (names, last)) :
    last.size = interner.size + (interner.news texts).count true := by
  induction texts generalizing interner names with
  | nil =>
      cases done
      rfl
  | cons text texts induction =>
      obtain ⟨name, after, rest, interned, continued, _⟩ := internAll_cons_eq_ok_iff.mp done
      rw [induction continued, size_intern interned, news, interned, List.count_cons, Nat.add_assoc]
      cases (interner.find? text).isNone with
      | true => exact congrArg _ (Nat.add_comm _ _)
      | false => exact congrArg _ (Nat.add_comm _ _)

theorem size_internAll (done : interner.internAll texts = .ok (names, last)) :
    last.size = (texts ++ interner.texts).dedup.length := by
  have same : last.texts.Perm (texts ++ interner.texts).dedup := by
    apply (List.perm_ext_iff_of_nodup last.nodup_texts (List.nodup_dedup _)).mpr
    intro text
    rw [mem_texts_internAll done, List.mem_dedup]
  exact same.length_eq

theorem internAll_succeeds_iff :
    (∃ outcome, interner.internAll texts = .ok outcome) ↔ Fit (texts ++ interner.texts) := by
  constructor
  · intro succeeds
    obtain ⟨⟨names, last⟩, done⟩ := succeeds
    apply last.fit_texts.of_subset
    intro text member
    exact (mem_texts_internAll done text).mpr member
  · intro fit
    induction texts generalizing interner with
    | nil => exact ⟨_, rfl⟩
    | cons text texts induction =>
        have first : Fit (text :: interner.texts) := by
          apply fit.of_subset
          intro other member
          rcases List.mem_cons.mp member with rfl | known
          · exact List.mem_cons_self
          · exact List.mem_append_right _ known
        obtain ⟨⟨name, after⟩, interned⟩ := intern_succeeds_iff.mpr first
        have others : Fit (texts ++ after.texts) := by
          apply fit.of_subset
          intro other member
          rw [List.mem_append, mem_texts_intern interned, List.mem_cons] at member
          rw [List.cons_append, List.mem_cons, List.mem_append, or_left_comm]
          exact member
        obtain ⟨⟨rest, last⟩, continued⟩ := induction others
        exact ⟨(name :: rest, last),
          internAll_cons_eq_ok_iff.mpr ⟨name, after, rest, interned, continued, rfl⟩⟩

/-! ### The law of whole runs -/

theorem mem_append_texts_initial :
    text ∈ texts ++ initial.texts ↔ text ∈ "" :: reservedWords ++ texts := by
  rw [List.mem_append, List.mem_append, mem_texts_initial, or_comm]

/-- At the start just the names of the empty text and the reserved words lead somewhere. -/
theorem lookup_initial :
    (∃ found, initial.lookup name = .ok found) ↔
      ∃ word ∈ "" :: reservedWords, initial.intern word = .ok (name, initial) := by
  constructor
  · intro known
    obtain ⟨word, known⟩ := known
    exact ⟨word, mem_texts_initial.mp (mem_texts_iff.mpr ⟨name, known⟩), intern_of_lookup known⟩
  · intro handedOut
    obtain ⟨word, _, interned⟩ := handedOut
    refine ⟨word, ?_⟩
    rw [lookup_intern interned, if_pos rfl]

/-- Names and texts correspond one for one over whole runs. A run gets through exactly if its texts
find room. Then what a name was handed out for is what it leads to, at once and after any further
run; equal names go with equal texts, and the empty name with the empty text; a name leads somewhere
exactly if it was handed out, in the run or at the start; interning what a name leads to gives the
name back and changes nothing; and there are as many texts as were given, counted once each, which
is what a counter of the new ones shows. -/
theorem interning_is_one_to_one (texts : List String) :
    ((∃ outcome, initial.internAll texts = .ok outcome) ↔ Fit ("" :: reservedWords ++ texts)) ∧
    ∀ names interner, initial.internAll texts = .ok (names, interner) →
      names.length = texts.length ∧
      (∀ text name, (text, name) ∈ texts.zip names →
        interner.lookup name = .ok text ∧ (name = .empty ↔ text = "") ∧
        (∀ more others last, interner.internAll more = .ok (others, last) →
          initial.internAll (texts ++ more) = .ok (names ++ others, last) ∧
          last.lookup name = .ok text) ∧
        ∀ other otherName, (other, otherName) ∈ texts.zip names →
          (name = otherName ↔ text = other)) ∧
      (∀ name, (∃ text, interner.lookup name = .ok text) ↔
        name ∈ names ∨
          ∃ word ∈ "" :: reservedWords, initial.intern word = .ok (name, initial)) ∧
      (∀ name text, interner.lookup name = .ok text →
        interner.intern text = .ok (name, interner)) ∧
      interner.size = ("" :: reservedWords ++ texts).dedup.length ∧
      interner.size = initial.size + (initial.news texts).count true := by
  have sameMembers : texts ++ initial.texts ⊆ "" :: reservedWords ++ texts ∧
      "" :: reservedWords ++ texts ⊆ texts ++ initial.texts :=
    ⟨fun _ => mem_append_texts_initial.mp, fun _ => mem_append_texts_initial.mpr⟩
  refine ⟨internAll_succeeds_iff.trans
    ⟨fun fit => fit.of_subset sameMembers.2, fun fit => fit.of_subset sameMembers.1⟩, ?_⟩
  intro names interner run
  have leads := forall₂_lookup_internAll run
  refine ⟨leads.length_eq.symm, ?_, ?_, ?_, ?_, size_internAll_eq_count run⟩
  · intro text name member
    have known := List.forall₂_zip leads member
    refine ⟨known, eq_empty_iff_of_lookup known, ?_, ?_⟩
    · intro more others last further
      refine ⟨?_, extends_of_internAll further name text known⟩
      exact internAll_append_eq_ok_iff.mpr ⟨names, interner, others, run, further, rfl⟩
    · intro other otherName otherMember
      have otherKnown := List.forall₂_zip leads otherMember
      constructor
      · intro same
        rw [same, otherKnown] at known
        exact (Except.ok.inj known).symm
      · intro same
        exact name_eq_of_lookup_eq known (same ▸ otherKnown)
  · intro name
    rw [lookup_internAll run, lookup_initial]
  · intro name text known
    exact intern_of_lookup known
  · rw [size_internAll run]
    exact Nat.le_antisymm (length_dedup_le_of_subset sameMembers.1)
      (length_dedup_le_of_subset sameMembers.2)

/-- A new text twice, a reserved word and the empty text: all find room, one text is added. -/
theorem interning_is_one_to_one_of_repeats :
    ∃ names interner, initial.internAll ["x", "set", "", "x"] = .ok (names, interner) ∧
      names[0]? = names[3]? ∧ names[2]? = some .empty ∧ interner.size = 35 := by
  obtain ⟨succeeds, laws⟩ := interning_is_one_to_one ["x", "set", "", "x"]
  have fit : Fit ("" :: reservedWords ++ ["x", "set", "", "x"]) := by
    intro shard
    have few : ("" :: reservedWords ++ ["x", "set", "", "x"]).length ≤ Name.shardWidth := by decide
    have kept := (List.dedup_sublist _).length_le.trans
      (List.length_filter_le (fun text => shardOf text = shard)
        ("" :: reservedWords ++ ["x", "set", "", "x"]))
    exact Nat.le_trans kept few
  obtain ⟨⟨names, interner⟩, run⟩ := succeeds.mpr fit
  obtain ⟨count, pairs, _, _, size, _⟩ := laws names interner run
  refine ⟨names, interner, run, ?_, ?_, size.trans (by decide)⟩
  · match names, count with
    | [first, second, third, fourth], _ =>
        have same := (pairs "x" first (by simp)).2.2.2 "x" fourth (by simp)
        exact congrArg some (same.mpr rfl)
  · match names, count with
    | [first, second, third, fourth], _ =>
        exact congrArg some ((pairs "" third (by simp)).2.1.mpr rfl)

end Interner

end Unbound
