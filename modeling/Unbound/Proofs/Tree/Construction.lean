import Unbound.Proofs.Tree.Descent
import Unbound.Proofs.Tree.Extent
import Unbound.Proofs.Tree.Room

/-!
# What a builder keeps in order

An arena keeps referring downwards only, as long as each call is given ids that are absent or lead
to a node, and a call stops for lack of room alone.
-/

set_option autoImplicit false

namespace Unbound

namespace Arena

variable {arena : Arena}

theorem exists_placesOf {ids : List NodeId} (within : ∀ id ∈ ids, id.Within arena.size) :
    ∃ found, arena.placesOf ids = .ok found := by
  rw [exists_placesOf_iff]
  intro id member present
  exact exists_node_of_index_lt ((within id member).index_lt present)

theorem exists_cover {ids : List NodeId} (within : ∀ id ∈ ids, id.Within arena.size) :
    ∃ span, arena.cover ids = .ok span := by
  obtain ⟨found, placed⟩ := exists_placesOf within
  exact ⟨Span.hull found, cover_eq_ok_iff.mpr ⟨found, placed, rfl⟩⟩

end Arena

/-- A reference has a known name, and what `typeof` is applied to is there, as far as the condition
asks for it. -/
def Construct.Answered (asks : Prop) (interner : Interner) : Construct → Prop
  | .reference name => ∃ text, interner.lookup name = .ok text
  | .expression (.unary .typeOf operand) => asks → operand.isPresent
  | _ => True

theorem Construct.Answered.mono {asks asksMore : Prop} {before after : Interner}
    {construct : Construct} (answered : construct.Answered asks before)
    (weaker : asksMore → asks) (names : after.Extends before) :
    construct.Answered asksMore after := by
  cases construct with
  | reference name =>
      obtain ⟨text, known⟩ := answered
      exact ⟨text, names name text known⟩
  | expression form =>
      cases form with
      | unary op operand =>
          cases op with
          | typeOf => exact fun asked => answered (weaker asked)
          | _ => trivial
      | _ => trivial
  | _ => trivial

namespace Builder

variable {asks : Prop} {builder after last : Builder}

/-- Nodes refer to earlier ones, and what their constructs name can be found. -/
structure Sound (asks : Prop) (builder : Builder) : Prop where
  descending : builder.arena.Descending
  answered : ∀ node ∈ builder.arena.nodes, node.construct.Answered asks builder.interner

theorem Sound.mono {asksMore : Prop} (sound : builder.Sound asks) (weaker : asksMore → asks) :
    builder.Sound asksMore where
  descending := sound.descending
  answered node member :=
    (sound.answered node member).mono weaker (Interner.extends_refl builder.interner)

theorem sound_ofInterner (interner : Interner) : (ofInterner interner).Sound asks where
  descending index node stored := by cases stored
  answered node member := absurd member (Array.not_mem_empty _)

structure Extends (after before : Builder) : Prop where
  size : before.arena.size ≤ after.arena.size
  list : ∀ range ids, before.arena.list range = .ok ids → after.arena.list range = .ok ids
  names : after.interner.Extends before.interner

theorem extends_refl (builder : Builder) : builder.Extends builder :=
  ⟨Nat.le_refl _, fun _ _ found => found, Interner.extends_refl builder.interner⟩

theorem Extends.trans (later : last.Extends after) (earlier : after.Extends builder) :
    last.Extends builder where
  size := Nat.le_trans earlier.size later.size
  list range ids found := later.list range ids (earlier.list range ids found)
  names := later.names.trans earlier.names

theorem Extends.within {id : NodeId} (grown : after.Extends builder)
    (within : id.Within builder.arena.size) : id.Within after.arena.size :=
  within.mono grown.size

theorem Extends.below {bound : Nat} {part : Child} (grown : after.Extends builder)
    (below : builder.arena.Below bound part) : after.arena.Below bound part := by
  cases part with
  | node id => exact below
  | list range =>
      obtain ⟨ids, found, within⟩ := below
      exact ⟨ids, grown.list range ids found, within⟩

theorem extends_withNode (builder : Builder) (node : Node) :
    (builder.withNode node).Extends builder where
  size := by
    rw [withNode, Arena.size_push]
    exact Nat.le_succ _
  list _ _ found := found
  names := Interner.extends_refl builder.interner

theorem extends_withList (builder : Builder) (ids : List NodeId) :
    (builder.withList ids).Extends builder where
  size := Nat.le_refl _
  list _ _ found := Arena.list_pushList ids found
  names := Interner.extends_refl builder.interner

theorem extends_withNames {interner : Interner} (names : interner.Extends builder.interner) :
    (builder.withNames interner).Extends builder :=
  ⟨Nat.le_refl _, fun _ _ found => found, names⟩

theorem Sound.withNode {node : Node} (sound : builder.Sound asks)
    (parts : ∀ part ∈ node.construct.children, builder.arena.Below builder.arena.size part)
    (answered : node.construct.Answered asks builder.interner) :
    (builder.withNode node).Sound asks where
  descending index other stored part member := by
    apply (builder.extends_withNode node).below
    change (builder.arena.nodes.push node)[index]? = some other at stored
    rw [Array.getElem?_push] at stored
    split at stored
    case isTrue last =>
      cases stored
      rw [last]
      exact parts part member
    case isFalse => exact sound.descending index other stored part member
  answered other member := by
    rcases Array.mem_push.mp member with known | added
    · exact sound.answered other known
    · rw [added]
      exact answered

theorem Sound.withList (sound : builder.Sound asks) (ids : List NodeId) :
    (builder.withList ids).Sound asks where
  descending index node stored part member :=
    (builder.extends_withList ids).below (sound.descending index node stored part member)
  answered := sound.answered

theorem Sound.withNames {interner : Interner} (sound : builder.Sound asks)
    (names : interner.Extends builder.interner) : (builder.withNames interner).Sound asks where
  descending := sound.descending
  answered node member := (sound.answered node member).mono id names

/-! ### Actions -/

/-- If the action returns, nothing is lost, all that it needs is there, the builder is sound, and
the result is as promised. If it stops, there is no room for what it needs. -/
structure Builds {Result : Type} (asks : Prop) (builder : Builder) (needs : Needs)
    (action : BuildM Result) (promise : Result → Builder → Prop) : Prop where
  returned : ∀ result after, action.run builder = .ok (result, after) →
    after.Sound asks ∧ after.Extends builder ∧ after.Fills builder needs ∧ promise result after
  stopped : ∀ failure, action.run builder = .error failure → builder.Lacks needs failure

section

variable {First Second : Type} {first : BuildM First} {next : First → BuildM Second}

theorem run_bind (first : BuildM First) (next : First → BuildM Second) (builder : Builder) :
    (first >>= next).run builder =
      (first.run builder).bind fun outcome => (next outcome.1).run outcome.2 := rfl

theorem run_bind_of_ok {result : First} {outcome : Except BuildError (Second × Builder)}
    (returned : first.run builder = .ok (result, after))
    (continued : (next result).run after = outcome) : (first >>= next).run builder = outcome := by
  rw [run_bind, returned]
  exact continued

theorem exists_run_of_bind {value : Second}
    (returned : (first >>= next).run builder = .ok (value, last)) :
    ∃ result after, first.run builder = .ok (result, after) ∧
      (next result).run after = .ok (value, last) := by
  rw [run_bind, bind_eq_ok_iff] at returned
  obtain ⟨⟨result, after⟩, begun, finished⟩ := returned
  exact ⟨result, after, begun, finished⟩

end

/-- One action after the other. The second needs room beside what the first one made. -/
theorem Builds.bind {First Second : Type} {needs more : Needs} {first : BuildM First}
    {next : First → BuildM Second} {promise : First → Builder → Prop}
    {goal : Second → Builder → Prop} (start : Builds asks builder needs first promise)
    (further : ∀ result after, after.Sound asks → after.Extends builder → promise result after →
      Builds asks after more (next result) goal) :
    Builds asks builder (needs + more) (first >>= next) goal := by
  constructor
  · intro value last returned
    obtain ⟨result, after, begun, finished⟩ := exists_run_of_bind returned
    obtain ⟨sound, grown, fills, promised⟩ := start.returned result after begun
    obtain ⟨soundLast, grownLast, fillsLast, kept⟩ :=
      (further result after sound grown promised).returned value last finished
    exact ⟨soundLast, grownLast.trans grown, fills.add fillsLast, kept⟩
  · intro failure failed
    rw [run_bind, bind_eq_error_iff] at failed
    rcases failed with begun | ⟨⟨result, after⟩, begun, later⟩
    · exact (start.stopped failure begun).add more
    · obtain ⟨sound, grown, fills, promised⟩ := start.returned result after begun
      exact fills.lacks ((further result after sound grown promised).stopped failure later)

section

variable {Result : Type} {needs : Needs} {action : BuildM Result}
  {promise : Result → Builder → Prop}

/-- Where 32 bits are enough, the texts alone decide whether the action returns. -/
theorem Builds.returns_iff (builds : Builds asks builder needs action promise)
    (room : builder.Room needs) :
    (∃ outcome, action.run builder = .ok outcome) ↔
      Interner.Fit (needs.texts ++ builder.interner.texts) := by
  rw [← Interner.internAll_succeeds_iff]
  constructor
  · intro succeeds
    obtain ⟨⟨result, after⟩, done⟩ := succeeds
    obtain ⟨_, _, fills, _⟩ := builds.returned result after done
    obtain ⟨names, interned⟩ := fills.texts
    exact ⟨_, interned⟩
  · intro succeeds
    obtain ⟨outcome, interned⟩ := succeeds
    cases done : action.run builder with
    | ok returned => exact ⟨returned, rfl⟩
    | error failure =>
        cases builds.stopped failure done with
        | shard full =>
            rw [interned] at full
            cases full
        | arena none => exact absurd room none

theorem Builds.exists_shardFull (builds : Builds asks builder needs action promise)
    (room : builder.Room needs)
    (crowded : ¬ Interner.Fit (needs.texts ++ builder.interner.texts)) :
    ∃ failure, action.run builder = .error (.shardFull failure) := by
  cases done : action.run builder with
  | ok outcome => exact absurd ((builds.returns_iff room).mp ⟨outcome, done⟩) crowded
  | error failure =>
      cases builds.stopped failure done with
      | shard full => exact ⟨_, rfl⟩
      | arena none => exact absurd room none

/-- An action that always returns and needs nothing. -/
theorem builds_of_run {result : Result} (done : action.run builder = .ok (result, builder))
    (sound : builder.Sound asks) (promised : promise result builder) :
    Builds asks builder 0 action promise where
  returned other after same := by
    rw [done] at same
    cases same
    exact ⟨sound, builder.extends_refl, builder.fills_zero, promised⟩
  stopped failure failed := by
    rw [done] at failed
    cases failed

end

/-- The result is absent or leads to a node that is there. -/
def Wired (id : NodeId) (builder : Builder) : Prop := id.Within builder.arena.size

theorem Wired.lasts (id : NodeId) (after last : Builder) (grown : last.Extends after)
    (wired : Wired id after) : Wired id last := grown.within wired

theorem Extends.wired {ids : List NodeId} (grown : after.Extends builder)
    (wired : ∀ id ∈ ids, Wired id builder) : ∀ id ∈ ids, Wired id after := by
  intro id member
  exact grown.within (wired id member)

theorem wired_concat {ids : List NodeId} {last : NodeId} (front : ∀ id ∈ ids, Wired id builder)
    (wired : Wired last builder) : ∀ id ∈ ids ++ [last], Wired id builder := by
  intro id member
  rcases List.mem_append.mp member with early | late
  · exact front id early
  · rw [List.mem_singleton.mp late]
    exact wired

theorem builds_name (sound : builder.Sound asks) (text : String) :
    Builds asks builder (.text text) (name text) fun name after =>
      after.interner.lookup name = .ok text where
  returned known after done := by
    obtain ⟨interner, interned, rfl⟩ := run_name_eq_ok_iff.mp done
    have names := Interner.extends_of_intern interned
    have looked : interner.lookup known = .ok text := by
      rw [Interner.lookup_intern interned, if_pos rfl]
    exact ⟨sound.withNames names, extends_withNames names, fills_withNames interned, looked⟩
  stopped _ failed := lacks_of_run_name failed

theorem builds_node {construct : Construct} (sound : builder.Sound asks)
    (parts : ∀ part ∈ construct.children, builder.arena.Below builder.arena.size part)
    (answered : construct.Answered asks builder.interner) (span : Option Span) :
    Builds asks builder .node (node construct span) Wired where
  returned id after done := by
    obtain ⟨within, rfl, rfl⟩ := run_node_eq_ok_iff.mp done
    have made : builder.arena.nextId.index < (builder.arena.push ⟨construct, span⟩).size := by
      rw [Arena.nextId, NodeId.index_ofIndex _ within, Arena.size_push]
      exact Nat.lt_succ_self _
    exact ⟨sound.withNode parts answered, builder.extends_withNode _, builder.fills_withNode _,
      .inr made⟩
  stopped _ failed := lacks_of_run_node failed

theorem builds_list {ids : List NodeId} (sound : builder.Sound asks)
    (wired : ∀ id ∈ ids, Wired id builder) :
    Builds asks builder (.list ids.length) (list ids) fun range after =>
      after.arena.Below after.arena.size (.list range) where
  returned range after done := by
    obtain ⟨addressed, rfl, rfl⟩ := run_list_eq_ok_iff.mp done
    have stored := builder.arena.list_pushList_nextRange ids addressed
    exact ⟨sound.withList ids, builder.extends_withList ids, builder.fills_withList ids,
      ids, stored, wired⟩
  stopped _ failed := lacks_of_run_list failed

theorem builds_cover {ids : List NodeId} (sound : builder.Sound asks)
    (wired : ∀ id ∈ ids, Wired id builder) :
    Builds asks builder 0 (cover ids) fun _ after => after = builder := by
  obtain ⟨span, covered⟩ := Arena.exists_cover wired
  have returned : (cover ids).run builder = .ok (span, builder) := by
    change cover ids builder = _
    rw [cover, covered]
  exact builds_of_run returned sound rfl

theorem builds_composite {construct : Construct} {covered : List NodeId}
    (sound : builder.Sound asks) (wired : ∀ id ∈ covered, Wired id builder)
    (parts : ∀ part ∈ construct.children, builder.arena.Below builder.arena.size part)
    (answered : construct.Answered asks builder.interner) :
    Builds asks builder .node (composite construct covered) Wired := by
  rw [← zero_add Needs.node]
  apply (builds_cover sound wired).bind
  intro span after soundAfter _ same
  subst same
  exact builds_node soundAfter parts answered span

theorem builds_listed {make : NodeRange → Construct} {ids covered : List NodeId}
    (sound : builder.Sound asks) (entries : ∀ id ∈ ids, Wired id builder)
    (wired : ∀ id ∈ covered, Wired id builder)
    (parts : ∀ range, (make range).children ⊆ .list range :: covered.map .node)
    (answered : ∀ range interner, (make range).Answered asks interner) :
    Builds asks builder (.list ids.length + .node)
      (do composite (make (← list ids)) covered) Wired := by
  apply (builds_list sound entries).bind
  intro range after soundAfter grown below
  apply builds_composite soundAfter (grown.wired wired)
  · intro part member
    rcases List.mem_cons.mp (parts range member) with rfl | other
    · exact below
    · obtain ⟨id, listed, rfl⟩ := List.mem_map.mp other
      exact grown.within (wired id listed)
  · exact answered range after.interner

theorem builds_fixed {construct : Construct} {covered : List NodeId}
    (sound : builder.Sound asks) (wired : ∀ id ∈ covered, Wired id builder)
    (parts : construct.children = covered.map .node)
    (answered : construct.Answered asks builder.interner) :
    Builds asks builder .node (composite construct covered) Wired := by
  apply builds_composite sound wired _ answered
  intro part member
  rw [parts] at member
  obtain ⟨id, listed, rfl⟩ := List.mem_map.mp member
  exact wired id listed

theorem builds_named {make : Name → Construct} {covered : List NodeId} (text : String)
    (sound : builder.Sound asks) (wired : ∀ id ∈ covered, Wired id builder)
    (parts : ∀ name, (make name).children = covered.map .node)
    (answered : ∀ name interner, (make name).Answered asks interner) :
    Builds asks builder (.text text + .node)
      (do composite (make (← name text)) covered) Wired := by
  apply (builds_name sound text).bind
  intro name after soundAfter grown _
  exact builds_fixed soundAfter (grown.wired wired) (parts name) (answered name after.interner)

theorem builds_sequence {make : NodeRange → Construct} {ids : List NodeId}
    (sound : builder.Sound asks) (wired : ∀ id ∈ ids, Wired id builder)
    (parts : ∀ range, (make range).children = [.list range])
    (answered : ∀ range interner, (make range).Answered asks interner) :
    Builds asks builder (.list ids.length + .node)
      (do composite (make (← list ids)) ids) Wired := by
  apply builds_listed sound wired wired _ answered
  intro range
  rw [parts]
  exact List.cons_subset_cons _ (List.nil_subset _)

theorem builds_functionBody {statements : List NodeId} (sound : builder.Sound asks)
    (wired : ∀ id ∈ statements, Wired id builder) :
    Builds asks builder (.list statements.length + .node) (functionBody statements) Wired :=
  builds_sequence sound wired (fun _ => rfl) fun _ _ => trivial

theorem builds_block {statements : List NodeId} (sound : builder.Sound asks)
    (wired : ∀ id ∈ statements, Wired id builder) :
    Builds asks builder (.list statements.length + .node) (block statements) Wired :=
  builds_sequence sound wired (fun _ => rfl) fun _ _ => trivial

/-- A construct with a body of its own, made before it. -/
theorem builds_withBody {make : NodeId → Construct} (front : List NodeId) {body : List NodeId}
    (sound : builder.Sound asks) (own : ∀ id ∈ front, Wired id builder)
    (wired : ∀ id ∈ body, Wired id builder)
    (parts : ∀ id, (make id).children = (front ++ [id]).map .node)
    (answered : ∀ id interner, (make id).Answered asks interner) :
    Builds asks builder (.list body.length + .node + .node)
      (do let body ← functionBody body
          composite (make body) (front ++ [body])) Wired := by
  apply (builds_functionBody sound wired).bind
  intro made after soundAfter grown madeWired
  exact builds_fixed soundAfter (wired_concat (grown.wired own) madeWired) (parts made)
    (answered made after.interner)

theorem builds_withParams {make : NodeRange → NodeId → Construct} (front : List NodeId)
    {params body : List NodeId} (sound : builder.Sound asks) (own : ∀ id ∈ front, Wired id builder)
    (entries : ∀ id ∈ params, Wired id builder) (wired : ∀ id ∈ body, Wired id builder)
    (parts : ∀ range id, (make range id).children ⊆ .list range :: (front ++ [id]).map .node)
    (answered : ∀ range id interner, (make range id).Answered asks interner) :
    Builds asks builder (.function params body)
      (do let body ← functionBody body
          let params ← list params
          composite (make params body) (front ++ [body])) Wired := by
  apply (builds_functionBody sound wired).bind
  intro made after soundAfter grown madeWired
  exact builds_listed soundAfter (grown.wired entries) (wired_concat (grown.wired own) madeWired)
    (fun range => parts range made) (fun range => answered range made)

theorem builds_functionDeclaration {name : NodeId} {params body : List NodeId}
    (sound : builder.Sound asks) (own : ∀ id ∈ [name], Wired id builder)
    (entries : ∀ id ∈ params, Wired id builder) (wired : ∀ id ∈ body, Wired id builder) :
    Builds asks builder (.function params body) (functionDeclaration name params body) Wired := by
  refine builds_withParams [name] sound own entries wired ?_ fun _ _ _ => trivial
  intro range id
  simp [Construct.children, FunctionForm.children]

theorem builds_functionExpression {name : NodeId} {params body : List NodeId}
    (sound : builder.Sound asks) (own : ∀ id ∈ [name], Wired id builder)
    (entries : ∀ id ∈ params, Wired id builder) (wired : ∀ id ∈ body, Wired id builder) :
    Builds asks builder (.function params body) (functionExpression name params body) Wired := by
  refine builds_withParams [name] sound own entries wired ?_ fun _ _ _ => trivial
  intro range id
  simp [Construct.children, FunctionForm.children]

theorem builds_arrowOf {params : List NodeId} {body : NodeId} (sound : builder.Sound asks)
    (wired : ∀ id ∈ params ++ [body], Wired id builder) :
    Builds asks builder (.list params.length + .node) (arrowOf params body) Wired := by
  refine builds_listed sound (List.forall_mem_append.mp wired).1 wired ?_ fun _ _ => trivial
  intro range
  simp [Construct.children, FunctionForm.children]

theorem builds_arrow {params body : List NodeId} (sound : builder.Sound asks)
    (entries : ∀ id ∈ params, Wired id builder) (wired : ∀ id ∈ body, Wired id builder) :
    Builds asks builder (.function params body) (arrow params body) Wired := by
  apply (builds_functionBody sound wired).bind
  intro made after soundAfter grown madeWired
  exact builds_arrowOf soundAfter (wired_concat (grown.wired entries) madeWired)

theorem builds_method {params body : List NodeId} (key : String) (sound : builder.Sound asks)
    (entries : ∀ id ∈ params, Wired id builder) (wired : ∀ id ∈ body, Wired id builder) :
    Builds asks builder (.text key + .function params body) (method key params body) Wired := by
  apply (builds_name sound key).bind
  intro name after soundAfter grown _
  exact builds_withParams [] soundAfter (List.forall_mem_nil _) (grown.wired entries)
    (grown.wired wired) (fun _ _ => List.Subset.refl _) fun _ _ _ => trivial

theorem builds_getter {body : List NodeId} (key : String) (sound : builder.Sound asks)
    (wired : ∀ id ∈ body, Wired id builder) :
    Builds asks builder (.text key + (.list body.length + .node + .node)) (getter key body)
      Wired := by
  apply (builds_name sound key).bind
  intro name after soundAfter grown _
  exact builds_withBody [] soundAfter (List.forall_mem_nil _) (grown.wired wired) (fun _ => rfl)
    fun _ _ => trivial

theorem builds_setter {param : NodeId} {body : List NodeId} (key : String)
    (sound : builder.Sound asks) (own : ∀ id ∈ [param], Wired id builder)
    (wired : ∀ id ∈ body, Wired id builder) :
    Builds asks builder (.text key + (.list body.length + .node + .node))
      (setter key param body) Wired := by
  apply (builds_name sound key).bind
  intro name after soundAfter grown _
  exact builds_withBody [param] soundAfter (grown.wired own) (grown.wired wired) (fun _ => rfl)
    fun _ _ => trivial

theorem builds_absent (sound : builder.Sound asks) :
    Builds asks builder 0 (pure .absent) Wired :=
  builds_of_run rfl sound (Or.inl rfl)

theorem builds_catchClause {parameter : NodeId} {handler : List NodeId}
    (sound : builder.Sound asks) (own : ∀ id ∈ [parameter], Wired id builder)
    (wired : ∀ id ∈ handler, Wired id builder) :
    Builds asks builder (.catchClause parameter handler) (catchClause parameter handler) Wired := by
  rw [catchClause, Needs.catchClause]
  split
  case isFalse => exact builds_absent sound
  case isTrue =>
    apply (builds_block sound wired).bind
    intro body after soundAfter grown bodyWired
    have covered : ∀ id ∈ [parameter] ++ [body], Wired id after :=
      wired_concat (grown.wired own) bodyWired
    exact builds_fixed soundAfter covered rfl trivial

theorem builds_tryStatement {body handler : List NodeId} {parameter : NodeId}
    {finalizer : Option (List NodeId)} (sound : builder.Sound asks)
    (bodyWired : ∀ id ∈ body, Wired id builder) (own : ∀ id ∈ [parameter], Wired id builder)
    (handlerWired : ∀ id ∈ handler, Wired id builder)
    (finalizerWired : ∀ statements, finalizer = some statements →
      ∀ id ∈ statements, Wired id builder) :
    Builds asks builder (.tryStatement body parameter handler finalizer)
      (tryStatement body parameter handler finalizer) Wired := by
  apply (builds_block sound bodyWired).bind
  intro body second soundSecond toSecond madeBody
  apply (builds_catchClause soundSecond (toSecond.wired own) (toSecond.wired handlerWired)).bind
  intro handler third soundThird toThird madeHandler
  have whole : ∀ finalizer after, Sound asks after → after.Extends third →
      Wired finalizer after →
      Builds asks after .node
        (composite (.statement (.try body handler finalizer)) [body, handler, finalizer])
        Wired := by
    intro finalizer last soundLast toLast madeFinalizer
    have front : ∀ id ∈ [body] ++ [handler], Wired id third :=
      wired_concat (List.forall_mem_singleton.mpr (toThird.within madeBody)) madeHandler
    have covered : ∀ id ∈ [body, handler] ++ [finalizer], Wired id last :=
      wired_concat (toLast.wired front) madeFinalizer
    exact builds_fixed soundLast covered rfl trivial
  cases finalizer with
  | none => exact (builds_absent soundThird).bind whole
  | some statements =>
      have wired := toThird.wired (toSecond.wired (finalizerWired statements rfl))
      exact (builds_block soundThird wired).bind whole

theorem builds_mapM {Item Result : Type} {needs : Item → Needs} {action : Item → BuildM Result}
    {promise : Result → Builder → Prop}
    (lasting : ∀ result after last, last.Extends after → promise result after →
      promise result last) {items : List Item} (sound : builder.Sound asks)
    (each : ∀ item ∈ items, ∀ after, after.Sound asks → after.Extends builder →
      Builds asks after (needs item) (action item) promise) :
    Builds asks builder (items.map needs).sum (items.mapM action) fun results after =>
      results.length = items.length ∧ ∀ result ∈ results, promise result after := by
  induction items generalizing builder with
  | nil => exact builds_of_run rfl sound ⟨rfl, List.forall_mem_nil _⟩
  | cons item items induction =>
      obtain ⟨first, others⟩ := List.forall_mem_cons.mp each
      rw [List.mapM_cons, List.map_cons, List.sum_cons]
      apply (first builder sound builder.extends_refl).bind
      intro result after soundAfter grown promised
      have rest := induction soundAfter fun other member last soundLast grownLast =>
        others other member last soundLast (grownLast.trans grown)
      rw [← add_zero (items.map needs).sum]
      apply rest.bind
      intro results last soundLast grownLast kept
      obtain ⟨length, promises⟩ := kept
      exact builds_of_run rfl soundLast ⟨congrArg Nat.succ length,
        List.forall_mem_cons.mpr ⟨lasting result after last grownLast promised, promises⟩⟩

theorem builds_objectPattern {fields : List (String × NodeId)} (sound : builder.Sound asks)
    (wired : ∀ id ∈ fields.map Prod.snd, Wired id builder) :
    Builds asks builder (.objectPattern fields) (objectPattern fields) Wired := by
  have each : ∀ field ∈ fields, ∀ after, after.Sound asks → after.Extends builder →
      Builds asks after (.text field.1 + .node) (patternField field.1 field.2) Wired := by
    intro field member after soundAfter grown
    have own := grown.within (wired field.2 (List.mem_map_of_mem member))
    exact builds_named field.1 soundAfter (List.forall_mem_singleton.mpr own) (fun _ => rfl)
      fun _ _ => trivial
  apply (builds_mapM Wired.lasts sound each).bind
  intro ids after soundAfter _ made
  rw [← made.1]
  exact builds_sequence soundAfter made.2 (fun _ => rfl) fun _ _ => trivial

theorem builds_singleVariable {binding initializer : NodeId} (sound : builder.Sound asks)
    (wired : ∀ id ∈ [binding, initializer], Wired id builder) :
    Builds asks builder (.node + (.list 1 + .node)) (singleVariable binding initializer) Wired := by
  have declarator : Builds asks builder .node
      (composite (.statement (.declarator binding initializer)) [binding, initializer]) Wired :=
    builds_fixed sound wired rfl trivial
  apply declarator.bind
  intro id after soundAfter grown made
  exact builds_sequence soundAfter (List.forall_mem_singleton.mpr made) (fun _ => rfl)
    fun _ _ => trivial

theorem builds_leaf {make : Name → Construct} (text : String) (span : Option Span)
    (sound : builder.Sound asks) (parts : ∀ name, (make name).children = [])
    (answered : ∀ name interner, interner.lookup name = .ok text →
      (make name).Answered asks interner) :
    Builds asks builder (.text text + .node) (do node (make (← name text)) span) Wired := by
  apply (builds_name sound text).bind
  intro name after soundAfter _ known
  apply builds_node soundAfter _ (answered name after.interner known)
  intro part member
  rw [parts] at member
  cases member

theorem builds_unary {op : UnaryOp} {operand : NodeId} (sound : builder.Sound asks)
    (wired : ∀ id ∈ [operand], Wired id builder)
    (probes : asks → op = .typeOf → operand.isPresent) :
    Builds asks builder .node (unary op operand) Wired := by
  apply builds_fixed sound wired rfl
  cases op with
  | typeOf => exact fun asked => probes asked rfl
  | _ => trivial

theorem finish_eq (items : List NodeId) :
    finish items = (do composite (.script (← list items)) items) >>= fun root =>
      get >>= fun builder => pure ⟨builder.arena, root⟩ := by
  rw [bind_assoc]
  rfl

theorem builds_finish {items : List NodeId} (sound : builder.Sound asks)
    (wired : ∀ id ∈ items, Wired id builder) :
    Builds asks builder (.list items.length + .node) (finish items) fun program after =>
      program.arena = after.arena ∧ program.root.Within after.arena.size := by
  have script : Builds asks builder (.list items.length + .node)
      (do composite (.script (← list items)) items) Wired :=
    builds_sequence sound wired (fun _ => rfl) fun _ _ => trivial
  rw [finish_eq, ← add_zero (Needs.list items.length + .node)]
  apply script.bind
  intro root after soundAfter _ rootWired
  exact builds_of_run rfl soundAfter ⟨rfl, rootWired⟩

end Builder

end Unbound
