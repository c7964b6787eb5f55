import CommonTrace.Proofs.Lexical.Roots

/-!
# Histories of a tree of scopes

A tree of scopes has a history: nodes were added, bound and cleared, values were decoded into it,
and it was rewound to points that it had been at. Whatever has been done since a point, rewinding
to the point leaves the nodes of then, and no more of their links and values than there were. What
is missing was removed or overwritten meanwhile; where nothing was, the tree looks as it did.
-/
namespace CommonTrace.ScopeTree

open Decoding

/-- What can be done to a tree of scopes, apart from rewinding it. -/
inductive Operation where
  | addChild (parent : NodeId) (name : String)
  | bind (node : NodeId) (value : Value)
  | clear (node : NodeId)
  | decode (type : Declaration) (parent : NodeId) (name : String) (cursor : Cursor)
  | decodeRoot (type : Declaration) (scope : DynamicScope) (cursor : Cursor)

namespace Operation

/-- The tree after an operation. Decoding that fails leaves what it has registered. -/
def apply (t : ScopeTree) : Operation → ScopeTree
  | addChild parent name => t.addChild parent name
  | bind node value => t.bind node value
  | clear node => t.clear node
  | decode type parent name cursor => (final (type.decode parent name ⟨cursor, t⟩)).scopes
  | decodeRoot type scope cursor => (final (type.decodeRoot scope ⟨cursor, t⟩)).scopes

/-- The node that an operation is told. -/
def node : Operation → NodeId
  | addChild parent _ => parent
  | bind node _ => node
  | clear node => node
  | decode _ parent _ _ => parent
  | decodeRoot _ scope _ => root scope

/-- Whether an operation leaves alone what a tree holds: a child gets a name that is not in use, a
node that is bound has no value, and a node that is cleared has neither children nor a value. What
cannot even be aligned is not decoded. -/
def Spares (kept : ScopeTree) : Operation → Prop
  | addChild parent name => kept.child? parent name = none
  | bind node _ => kept.value? node = none
  | clear node => kept.Vacant node
  | decode type parent name cursor =>
    (cursor.align type.alignment).isOk → kept.child? parent name = none
  | decodeRoot type scope cursor => (cursor.align type.alignment).isOk → kept.Vacant (root scope)

variable {t kept : ScopeTree} {point : ScopeCheckpoint} {op : Operation}

/-- An operation changes the node that it is told, and those that it adds. -/
theorem edits (op : Operation) (t : ScopeTree) : t.Edits (· = op.node) (op.apply t) := by
  cases op with
  | addChild parent name => exact .addChild .refl (.inl (by rfl)) name
  | bind node value => exact .bind .refl (.inl (by rfl)) value
  | clear node => exact .clear .refl (.inl (by rfl))
  | decode type parent name cursor => exact type.edits_decode parent name ⟨cursor, t⟩
  | decodeRoot type scope cursor => exact type.edits_decodeRoot scope ⟨cursor, t⟩

/-- After an alignment and what follows it, a tree is as it was if the alignment fails, and else as
what follows leaves it. -/
theorem of_align {C : ScopeTree → Prop} {cursor : Cursor} {alignment : Nat}
    {rest : Unit → Decode Value} (herror : ∀ e, cursor.align alignment = .error e → C t)
    (hok : ∀ next, cursor.align alignment = .ok next → C (final (rest () ⟨next, t⟩)).scopes) :
    C (final ((move (·.align alignment) >>= rest) ⟨cursor, t⟩)).scopes := by
  rw [bind_apply, move]
  dsimp only
  cases halign : cursor.align alignment with
  | error e => exact herror e halign
  | ok next => exact hok next halign

/-- What is there at a point is kept by operations that leave it alone. -/
theorem keeps (h : Keeps point kept t) (hop : op.Spares kept) : Keeps point kept (op.apply t) := by
  cases op with
  | addChild parent name => exact h.addChild hop
  | bind node value => exact h.bind hop value
  | clear node => exact h.clear hop
  | decode type parent name cursor =>
    refine of_align (C := Keeps point kept) (fun _ _ => h) fun next halign => ?_
    have hfree : kept.child? parent name = none := hop (by rw [halign]; rfl)
    -- the value is decoded at the node that is added, which is none of those kept
    have hedits := type.edits_decodeAt t.next ⟨next, t.addChild parent name⟩
    exact hedits.keeps (h.addChild hfree) fun i hi => hi ▸ h.vacant_next
  | decodeRoot type scope cursor =>
    refine of_align (C := Keeps point kept) (fun _ _ => h) fun next halign => ?_
    have hvacant : kept.Vacant (root scope) := hop (by rw [halign]; rfl)
    have hedits := type.edits_decodeAt (root scope) ⟨next, t.clear (root scope)⟩
    exact hedits.keeps (h.clear hvacant) fun i hi => hi ▸ hvacant

end Operation

/-- The trees that are reached from the tree `t` by operations that are allowed in the tree at hand
and by rewinding to the points that trees so reached were at. -/
inductive ReachedFrom (allowed : ScopeTree → Operation → Prop) (t : ScopeTree) : ScopeTree → Prop
  | start : ReachedFrom allowed t t
  | apply {u : ScopeTree} {op : Operation} (h : ReachedFrom allowed t u) (hop : allowed u op) :
      ReachedFrom allowed t (op.apply u)
  | rewind {u w : ScopeTree} (h : ReachedFrom allowed t u) (hw : ReachedFrom allowed t w) :
      ReachedFrom allowed t (u.rewind w.checkpoint)

/-- The trees that are reached whatever is done. -/
abbrev Reached : ScopeTree → ScopeTree → Prop := ReachedFrom fun _ _ => True

/-- The trees that are reached from the tree `t` while all that it holds is left alone. -/
abbrev ReachedSparing (t : ScopeTree) : ScopeTree → Prop := ReachedFrom (fun _ op => op.Spares t) t

/-- The trees that are built by operations on nodes that exist. -/
abbrev Reachable : ScopeTree → Prop := ReachedFrom (fun u op => u.Has op.node) .empty

variable {allowed : ScopeTree → Operation → Prop} {own : NodeId → Prop} {t u kept : ScopeTree}

/-- What changes nodes is made of operations. -/
theorem Edits.reachedFrom (h : Edits own t u)
    (hallowed : ∀ {w : ScopeTree} {op : Operation}, Edits own t w → Mine own t w op.node →
      allowed w op) : ReachedFrom allowed t u := by
  induction h with
  | refl => exact .start
  | @addChild w parent hw hp name ih =>
    have hop : allowed w (.addChild parent name) := hallowed hw hp
    exact ih.apply hop
  | @bind w i hw hi value ih =>
    have hop : allowed w (.bind i value) := hallowed hw hi
    exact ih.apply hop
  | @clear w i hw hi ih =>
    have hop : allowed w (.clear i) := hallowed hw hi
    exact ih.apply hop

namespace ReachedFrom

theorem trans {w : ScopeTree} (h : ReachedFrom allowed t u) (h' : ReachedFrom allowed u w) :
    ReachedFrom allowed t w := by
  induction h' with
  | start => exact h
  | apply _ hop ih => exact ih.apply hop
  | rewind _ _ ih ih' => exact ih.rewind ih'

/-- A history goes on from the point where it starts. -/
theorem notAfter (h : ReachedFrom allowed t u) : t.checkpoint.NotAfter u.checkpoint := by
  induction h with
  | start => exact ⟨Nat.le_refl _, Nat.le_refl _⟩
  | @apply u op _ hop ih =>
    have hedits := op.edits u
    exact ⟨Nat.le_trans ih.1 hedits.size_le, Nat.le_trans ih.2 hedits.clock_le⟩
  | @rewind u w _ _ ih ih' =>
    refine ⟨?_, ih.2⟩
    show t.nodes.size ≤ (u.rewind w.checkpoint).nodes.size
    rw [size_rewind]
    exact Nat.le_min.2 ⟨ih'.1, ih.1⟩

theorem closed (h : ReachedFrom allowed t u) (ht : t.Closed) : u.Closed := by
  induction h with
  | start => exact ht
  | @apply u op _ hop ih => exact (op.edits u).closed ih
  | rewind _ _ ih => exact ih.rewind _

/-- Whatever is done since a point, rewinding to it brings back no more than was there. -/
theorem partOf_rewind (h : ReachedFrom allowed t u) : (u.rewind t.checkpoint).PartOf t := by
  induction h with
  | start => exact partOf_rewind_checkpoint
  | @apply u op hu hop ih =>
    exact ((op.edits u).partOf_rewind hu.notAfter.1 hu.notAfter.2).trans ih
  | rewind _ hw ih => exact (alike_rewind_rewind hw.notAfter).partOf.trans ih

/-- What is there at a point is kept by all that leaves it alone. -/
theorem keeps (h : ReachedSparing t u) (ht : t.Closed) : Keeps t.checkpoint t u := by
  induction h with
  | start => exact .now ht
  | apply _ hop ih => exact Operation.keeps ih hop
  | rewind _ hw ih => exact ih.rewind hw.notAfter

theorem linked (h : Reachable t) : t.Linked := by
  induction h with
  | start => exact .empty
  | @apply u op _ hop ih => exact (op.edits u).linked ih fun i hi => hi ▸ hop
  | rewind _ _ ih ih' => exact ih.rewind ih'.count_le

end ReachedFrom

/-- Whatever has been done since a point, rewinding to it leaves the nodes that were there then with
their names and parents, and for each of them some of its children and its value or none. If what
was there has been left alone, everything is as it was: children, values, paths and what paths stand
for. This holds at every point, so also at one that comes after another, and rewinding to the later
one first makes no difference to the other; either may have been rewound to before. -/
theorem rewind_checkpoint (ht : Reached .empty t) :
    (∀ u, Reached t u → (u.rewind t.checkpoint).PartOf t) ∧
      (∀ u, ReachedSparing t u →
        (u.rewind t.checkpoint).Alike t ∧
          (∀ i, (u.rewind t.checkpoint).path i = t.path i) ∧
          (∀ start names, (u.rewind t.checkpoint).lookupTokens? start names =
            t.lookupTokens? start names) ∧
          ∀ start path, (u.rewind t.checkpoint).lookup? start path = t.lookup? start path) ∧
      ∀ u w, Reached t u → Reached u w →
        (w.rewind u.checkpoint).PartOf u ∧
          (ReachedSparing u w → (w.rewind u.checkpoint).Alike u) ∧
          ((w.rewind u.checkpoint).rewind t.checkpoint).Alike (w.rewind t.checkpoint) := by
  have hempty : (empty : ScopeTree).Closed := Linked.empty.closed
  refine ⟨fun u hu => hu.partOf_rewind, fun u hu => ?_, fun u w hu hw => ⟨hw.partOf_rewind,
    fun hsparing => ?_, alike_rewind_rewind hu.notAfter⟩⟩
  · have halike := (hu.keeps (ht.closed hempty)).alike
    exact ⟨halike, halike.path, halike.lookupTokens?,
      fun start path => halike.lookupTokens? start _⟩
  · exact (hsparing.keeps ((ht.trans hu).closed hempty)).alike

/-- The constants of a trace hold while events are decoded, again and again. Once they are cleared,
they do not come back. -/
theorem rewind_checkpoint_countTrace :
    let t := Lexical.countTrace.baseScopes
    let count (u : ScopeTree) (path : String) := (u.lookup? (root .environment) path).isSome
    let event := Operation.decodeRoot Lexical.countType .eventFields (.ofBytes Lexical.countBytes)
    let decoded := event.apply ((event.apply t).rewind t.checkpoint)
    let cleared := (Operation.clear (root .environment)).apply decoded
    Reached .empty t ∧ ReachedSparing t decoded ∧ Reached t cleared ∧
      count decoded "event.fields.body.count" ∧
      (decoded.rewind t.checkpoint).Alike t ∧ count (decoded.rewind t.checkpoint) "env.count" ∧
      ¬count (decoded.rewind t.checkpoint) "event.fields.body.count" ∧
      (cleared.rewind t.checkpoint).PartOf t ∧
      ¬count (cleared.rewind t.checkpoint) "env.count" := by
  intro t count event decoded cleared
  have ht : Reached .empty t :=
    (Lexical.countTrace.edits_bindEnvironment .empty).reachedFrom fun _ _ => trivial
  have hvacant : event.Spares t := fun _ =>
    Lexical.countTrace.vacant_baseScopes (show DynamicScope.eventFields ≠ .environment by decide)
  have honce : ReachedSparing t (event.apply t) := .apply .start hvacant
  have hdecoded : ReachedSparing t decoded := .apply (honce.rewind .start) hvacant
  have hcleared : Reached t cleared :=
    (((ReachedFrom.start.apply trivial).rewind .start).apply trivial).apply trivial
  obtain ⟨hpart, hwhole, -⟩ := rewind_checkpoint ht
  obtain ⟨halike, -, -, hlookup⟩ := hwhole decoded hdecoded
  have hcount (path : String) : count (decoded.rewind t.checkpoint) path = count t path := by
    exact congrArg Option.isSome (hlookup _ path)
  refine ⟨ht, hdecoded, hcleared, by decide +kernel, halike, ?_, ?_, hpart cleared hcleared,
    by decide +kernel⟩
  · rw [hcount]
    decide +kernel
  · rw [hcount]
    decide +kernel

end CommonTrace.ScopeTree
