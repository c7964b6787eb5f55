import CommonTrace.Proofs.Scope.Histories

/-!
# Where paths lead

Names lead from a node down its child links, and they find the value that the last node is bound
to, if there is a last node and it is bound. A path that starts with a reserved word begins with all
the names of one dynamic scope and finds what the other names find there. Any other path finds what
it finds at the closest of a node, its parent, the parent of that and so on where it finds anything.
Parents have smaller numbers than their children, so there are only so many of them.
-/
namespace CommonTrace

/-- A list of names that starts with the names that lead to a scope stands for the other names in
that scope. -/
theorem DynamicScope.split?_append (scope : DynamicScope) (names : List String) :
    split? (scope.tokens ++ names) = some (scope, names) := by
  cases scope <;> simp [split?, all, tokens]

theorem DynamicScope.split?_eq_some {scope : DynamicScope} {names rest : List String} :
    split? names = some (scope, rest) ↔ scope.tokens ++ rest = names := by
  constructor
  · intro h
    obtain ⟨found, -, hfound⟩ := List.exists_of_findSome?_eq_some h
    split at hfound
    next hprefix =>
      cases hfound
      exact List.prefix_iff_eq_append.1 (List.isPrefixOf_iff_prefix.1 hprefix)
    · cases hfound
  · rintro rfl
    exact split?_append scope rest

/-- The names of at most one scope start a list of names. -/
theorem DynamicScope.tokens_append_inj {scope scope' : DynamicScope} {names names' : List String}
    (h : scope.tokens ++ names = scope'.tokens ++ names') : scope = scope' ∧ names = names' := by
  have hsplit := split?_append scope names
  rw [h, split?_append] at hsplit
  cases hsplit
  exact ⟨rfl, rfl⟩

namespace ScopeTree

variable {t : ScopeTree} {i j p start : NodeId} {name : String} {names : List String}
  {v w : Value}

/-- The names of child links that lead from one node to another. -/
inductive Leads (t : ScopeTree) : NodeId → List String → NodeId → Prop
  | here (i : NodeId) : Leads t i [] i
  | down {i c j : NodeId} {name : String} {names : List String} (hc : t.child? i name = some c)
      (h : Leads t c names j) : Leads t i (name :: names) j

theorem descend?_cons :
    t.descend? i (name :: names) = (t.child? i name).bind (t.descend? · names) := by
  rw [descend?, List.foldlM_cons]
  rfl

theorem descend?_eq_some : t.descend? i names = some j ↔ t.Leads i names j := by
  constructor
  · intro h
    induction names generalizing i with
    | nil =>
      cases h
      exact .here _
    | cons name names ih =>
      rw [descend?_cons] at h
      obtain ⟨c, hc, hrest⟩ := Option.bind_eq_some_iff.1 h
      exact .down hc (ih hrest)
  · intro h
    induction h with
    | here i => rfl
    | down hc _ ih => rw [descend?_cons, hc, Option.bind_some, ih]

/-- Names find the value of the node that they lead to. -/
def Finds (t : ScopeTree) (i : NodeId) (names : List String) (v : Value) : Prop :=
  ∃ j, t.Leads i names j ∧ t.value? j = some v

theorem valueBelow?_eq_some : t.valueBelow? i names = some v ↔ t.Finds i names v := by
  simp only [valueBelow?, Option.bind_eq_some_iff, descend?_eq_some, Finds]

theorem valueBelow?_eq_none : t.valueBelow? i names = none ↔ ∀ v, ¬t.Finds i names v := by
  simp only [Option.eq_none_iff_forall_ne_some, ne_eq, valueBelow?_eq_some]

theorem Finds.unique (h : t.Finds i names v) (h' : t.Finds i names w) : v = w :=
  Option.some.inj ((valueBelow?_eq_some.2 h).symm.trans (valueBelow?_eq_some.2 h'))

/-- The node that many steps up from a node: itself, its parent, the parent of that and so on. -/
def above? (t : ScopeTree) (start : NodeId) : Nat → Option NodeId
  | 0 => some start
  | steps + 1 => (t.parent? start).bind (t.above? · steps)

/-- Each step up leads to a smaller number. -/
theorem Linked.index_above?_le (ht : t.Linked) {steps : Nat} (h : t.above? start steps = some i) :
    i.index + steps ≤ start.index := by
  induction steps generalizing start with
  | zero =>
    cases h
    exact Nat.le_refl _
  | succ steps ih =>
    obtain ⟨p, hp, hrest⟩ := Option.bind_eq_some_iff.1 h
    have hlt := ht.parent_lt hp
    have hle := ih hrest
    omega

/-- The way up ends. -/
theorem Linked.above?_eq_none (ht : t.Linked) {steps : Nat} (h : start.index < steps) :
    t.above? start steps = none := by
  cases habove : t.above? start steps with
  | none => rfl
  | some i =>
    have hle := ht.index_above?_le habove
    omega

/-- Names find a value at a node or above it, and nothing at any node that is closer. -/
def Nearest (t : ScopeTree) (start : NodeId) (names : List String) (v : Value) : Prop :=
  ∃ steps i, t.above? start steps = some i ∧ t.Finds i names v ∧
    ∀ fewer < steps, ∀ closer, t.above? start fewer = some closer → ∀ w, ¬t.Finds closer names w

theorem nearest_of_finds (h : t.Finds start names w) : t.Nearest start names v ↔ v = w := by
  constructor
  · rintro ⟨steps, i, hi, hfinds, hcloser⟩
    cases steps with
    | zero =>
      cases hi
      exact hfinds.unique h
    | succ steps => exact absurd h (hcloser 0 (Nat.succ_pos _) start rfl w)
  · rintro rfl
    exact ⟨0, start, rfl, h, fun fewer hfewer => absurd hfewer (Nat.not_lt_zero _)⟩

theorem nearest_of_not_finds (h : ∀ w, ¬t.Finds start names w) :
    t.Nearest start names v ↔ ∃ p, t.parent? start = some p ∧ t.Nearest p names v := by
  constructor
  · rintro ⟨steps, i, hi, hfinds, hcloser⟩
    cases steps with
    | zero =>
      cases hi
      exact absurd hfinds (h v)
    | succ steps =>
      obtain ⟨p, hp, hrest⟩ := Option.bind_eq_some_iff.1 hi
      refine ⟨p, hp, steps, i, hrest, hfinds, fun fewer hfewer closer hc => ?_⟩
      refine hcloser (fewer + 1) (Nat.succ_lt_succ hfewer) closer ?_
      rw [above?, hp, Option.bind_some, hc]
  · rintro ⟨p, hp, steps, i, hi, hfinds, hcloser⟩
    refine ⟨steps + 1, i, by rw [above?, hp, Option.bind_some, hi], hfinds,
      fun fewer hfewer closer hc => ?_⟩
    cases fewer with
    | zero =>
      cases hc
      exact h
    | succ fewer =>
      rw [above?, hp, Option.bind_some] at hc
      exact hcloser fewer (Nat.lt_of_succ_lt_succ hfewer) closer hc

/-- Where names find anything above a node, they find something nearest to it. -/
theorem exists_nearest {steps : Nat} (hi : t.above? start steps = some i)
    (h : t.Finds i names w) : ∃ v, t.Nearest start names v := by
  induction steps generalizing start with
  | zero =>
    cases hi
    exact ⟨w, (nearest_of_finds h).2 rfl⟩
  | succ steps ih =>
    obtain ⟨p, hp, hrest⟩ := Option.bind_eq_some_iff.1 hi
    by_cases hfinds : ∃ v, t.Finds start names v
    · obtain ⟨v, hv⟩ := hfinds
      exact ⟨v, (nearest_of_finds hv).2 rfl⟩
    · obtain ⟨v, hv⟩ := ih hrest
      exact ⟨v, (nearest_of_not_finds (not_exists.1 hfinds)).2 ⟨p, hp, hv⟩⟩

theorem parent?_of_ancestor? {hlt : p.index < i.index} (h : t.ancestor? i = some ⟨p, hlt⟩) :
    t.parent? i = some p := by
  obtain ⟨p', hp', hdite⟩ := Option.bind_eq_some_iff.1 h
  split at hdite
  · cases hdite
    exact hp'
  · cases hdite

theorem Linked.ancestor?_eq_some (ht : t.Linked) (hp : t.parent? i = some p) :
    t.ancestor? i = some ⟨p, ht.parent_lt hp⟩ := by
  rw [ancestor?, hp, Option.bind_some, dif_pos (ht.parent_lt hp)]

theorem Linked.parent?_eq_none (ht : t.Linked) (h : t.ancestor? i = none) : t.parent? i = none := by
  cases hp : t.parent? i with
  | none => rfl
  | some p => cases h.symm.trans (ht.ancestor?_eq_some hp)

/-- A relative path stands for what it finds nearest to a node. -/
theorem relative?_eq_some (ht : t.Linked) :
    t.relative? names start = some v ↔ t.Nearest start names v := by
  fun_induction relative? t names start with
  | case1 start w hw =>
    rw [nearest_of_finds (valueBelow?_eq_some.1 hw), Option.some_inj, eq_comm]
  -- a parent that is not before its child would end the search, but there is none
  | case2 start hnone parent hlt hparent ih =>
    rw [ih, nearest_of_not_finds (valueBelow?_eq_none.1 hnone), parent?_of_ancestor? hparent]
    simp
  | case3 start hnone hroot =>
    rw [nearest_of_not_finds (valueBelow?_eq_none.1 hnone), ht.parent?_eq_none hroot]
    simp

theorem relative?_eq_none (ht : t.Linked) :
    t.relative? names start = none ↔
      ∀ steps i, t.above? start steps = some i → ∀ v, ¬t.Finds i names v := by
  rw [Option.eq_none_iff_forall_ne_some]
  constructor
  · intro h steps i hi v hfinds
    obtain ⟨w, hw⟩ := exists_nearest hi hfinds
    exact h w ((relative?_eq_some ht).2 hw)
  · intro h v hv
    obtain ⟨steps, i, hi, hfinds, -⟩ := (relative?_eq_some ht).1 hv
    exact h steps i hi v hfinds

/-- A path that begins with the names of a scope stands for what the other names lead to in it. -/
theorem lookupTokens?_append (t : ScopeTree) (start : NodeId) (scope : DynamicScope)
    (names : List String) :
    t.lookupTokens? start (scope.tokens ++ names) = t.valueBelow? (root scope) names := by
  have hsplit := DynamicScope.split?_append scope names
  generalize hall : scope.tokens ++ names = all at hsplit
  cases all with
  | nil => cases scope <;> cases hall
  | cons first rest =>
    have hreserved : first ∈ DynamicScope.reserved := by
      cases scope <;> cases hall <;> decide
    rw [lookupTokens?, if_pos hreserved, hsplit]
    rfl

/-- A path that starts with a reserved word stands for what is found in the scope all the names of
which it begins with. -/
theorem lookupTokens?_reserved {first : String} {rest : List String}
    (hfirst : first ∈ DynamicScope.reserved) :
    t.lookupTokens? start (first :: rest) = some v ↔
      ∃ scope names, scope.tokens ++ names = first :: rest ∧ t.Finds (root scope) names v := by
  rw [lookupTokens?, if_pos hfirst]
  simp only [Option.bind_eq_some_iff, Prod.exists, DynamicScope.split?_eq_some, valueBelow?_eq_some]

/-- In a tree that is built from nodes that exist, a path that starts with a reserved word stands
for what is found in the one scope, if any, all the names of which it begins with, wherever it is
looked up. Any other path stands for what it finds at the closest of the starting node and those
above it where it finds a value, and for nothing only if there is none. The way up comes to its end,
since the number of a parent is smaller. -/
theorem lookupTokens?_of_reachable (ht : t.Reachable) (start : NodeId) (first : String)
    (rest : List String) :
    (first ∈ DynamicScope.reserved →
      (∀ v, t.lookupTokens? start (first :: rest) = some v ↔
        ∃ scope names, scope.tokens ++ names = first :: rest ∧ t.Finds (root scope) names v) ∧
      ∀ (scope scope' : DynamicScope) (names names' : List String),
        scope.tokens ++ names = first :: rest → scope'.tokens ++ names' = first :: rest →
          scope = scope' ∧ names = names') ∧
    (first ∉ DynamicScope.reserved →
      (∀ v, t.lookupTokens? start (first :: rest) = some v ↔ t.Nearest start (first :: rest) v) ∧
      (t.lookupTokens? start (first :: rest) = none ↔
        ∀ steps i, t.above? start steps = some i → ∀ v, ¬t.Finds i (first :: rest) v)) ∧
    (∀ i p, t.parent? i = some p → p.index < i.index) ∧
    ∀ steps, start.index < steps → t.above? start steps = none := by
  have hlinked := ht.linked
  refine ⟨fun hfirst => ⟨fun v => lookupTokens?_reserved hfirst, ?_⟩, fun hfirst => ?_,
    fun i p => hlinked.parent_lt, fun steps => hlinked.above?_eq_none⟩
  · intro scope scope' names names' h h'
    exact DynamicScope.tokens_append_inj (h.trans h'.symm)
  · rw [lookupTokens?, if_neg hfirst]
    exact ⟨fun v => relative?_eq_some hlinked, relative?_eq_none hlinked⟩

/-- A field `a` of an event that is complete, and a struct in which another `a` is not. -/
def shadowed : ScopeTree :=
  let event := root .eventFields
  (((empty.addChild event "a").bind ⟨7⟩ (.string .utf8 0 "outer")).addChild event "inner").addChild
    ⟨8⟩ "a"

/-- A field that is being decoded does not hide a field of the same name further up. A path that
starts with a reserved word is looked for in no other place. -/
theorem lookupTokens?_of_reachable_shadowed :
    shadowed.Reachable ∧ "a" ∉ DynamicScope.reserved ∧ "event" ∈ DynamicScope.reserved ∧
      shadowed.Leads ⟨8⟩ ["a"] ⟨9⟩ ∧
      shadowed.lookupTokens? ⟨8⟩ ["a"] = some (.string .utf8 0 "outer") ∧
      shadowed.lookupTokens? ⟨8⟩ ["event", "fields", "a"] = some (.string .utf8 0 "outer") ∧
      shadowed.lookupTokens? ⟨8⟩ ["event", "a"] = none := by
  have ht : shadowed.Reachable := by
    let outer : Operation := .addChild (root .eventFields) "a"
    let bound : Operation := .bind ⟨7⟩ (.string .utf8 0 "outer")
    let inner : Operation := .addChild (root .eventFields) "inner"
    let last : Operation := .addChild ⟨8⟩ "a"
    have houter : (outer.apply empty).Reachable := .apply .start (by decide +kernel)
    have hbound : (bound.apply (outer.apply empty)).Reachable := houter.apply (by decide +kernel)
    have hinner : (inner.apply (bound.apply (outer.apply empty))).Reachable :=
      hbound.apply (by decide +kernel)
    have hlast : (last.apply (inner.apply (bound.apply (outer.apply empty)))).Reachable :=
      hinner.apply (by decide +kernel)
    exact hlast
  have hleads : shadowed.Leads ⟨8⟩ ["a"] ⟨9⟩ := descend?_eq_some.1 (by decide +kernel)
  have houter : shadowed.Leads (root .eventFields) ["a"] ⟨7⟩ :=
    descend?_eq_some.1 (by decide +kernel)
  have hfound : shadowed.Finds (root .eventFields) ["a"] (.string .utf8 0 "outer") :=
    ⟨⟨7⟩, houter, by simp [shadowed, value?_bind, Has, empty, DynamicScope.all]⟩
  have hcloser : ∀ w, ¬shadowed.Finds ⟨8⟩ ["a"] w :=
    valueBelow?_eq_none.1 (Option.isNone_iff_eq_none.1 (by decide +kernel))
  refine ⟨ht, by decide, by decide, hleads, ?_, ?_, ?_⟩
  · refine (((lookupTokens?_of_reachable ht ⟨8⟩ "a" []).2.1 (by decide)).1 _).2
      ⟨1, root .eventFields, by decide +kernel, hfound, fun fewer hfewer closer hc => ?_⟩
    cases Nat.lt_one_iff.1 hfewer
    cases hc
    exact hcloser
  · exact (((lookupTokens?_of_reachable ht ⟨8⟩ "event" ["fields", "a"]).1 (by decide)).1 _).2
      ⟨.eventFields, ["a"], rfl, hfound⟩
  · have hnone := ((lookupTokens?_of_reachable ht ⟨8⟩ "event" ["a"]).1 (by decide)).1
    rw [Option.eq_none_iff_forall_ne_some]
    intro v hv
    obtain ⟨scope, names, hnames, -⟩ := (hnone v).1 hv
    cases scope <;> simp [DynamicScope.tokens] at hnames

end ScopeTree

end CommonTrace
