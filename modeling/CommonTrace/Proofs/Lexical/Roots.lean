import CommonTrace.Proofs.Lexical.Simulation
import CommonTrace.Proofs.Packet.Preamble

/-!
# The contents of dynamic scopes

The content of a dynamic scope is decoded in a tree in which the other scopes hold what was
decoded before, or the constants of the environment, or nothing. Whatever tree it is, the
result is the one that lexical scopes give. Afterwards the scope holds its content and the
others hold what they held, so this goes on from one scope to the next.
-/
namespace CommonTrace.Lexical

open Decoding

variable {scope : DynamicScope} {others : DynamicScope → Content} {t : ScopeTree}

/-- What an environment holds when its constants are registered. -/
def environment (metadata : Metadata) : Content :=
  .having (metadata.environment.toList.map fun (name, constant) =>
    (name, (Metadata.constantValue metadata.byteOrder constant).datum))

/-- Registering constants adds them to those the environment holds. -/
theorem shows_bindConstants (order : ByteOrder) (constants : List (String × Constant))
    (members : List (String × Datum))
    (h : Shows (.root .environment others) [] (ScopeTree.root .environment) (.having members) t) :
    Shows (.root .environment others) [] (ScopeTree.root .environment)
      (.having (members ++ constants.map fun (name, constant) =>
        (name, (Metadata.constantValue order constant).datum)))
      (constants.foldl (fun t (name, constant) => Metadata.bindConstant t
        (ScopeTree.root .environment) name (Metadata.constantValue order constant)) t) := by
  induction constants generalizing members t with
  | nil => simpa using h
  | cons entry rest ih =>
    obtain ⟨name, constant⟩ := entry
    have hleaf : (Metadata.constantValue order constant).datum.members = [] := by
      cases constant <;> rfl
    have hentered := h.enter name
    rw [← hleaf] at hentered
    have hnext := ih _ hentered.complete.leave
    rwa [List.append_assoc] at hnext

/-- The environment holds its constants once they are registered, and no more. -/
theorem mirrors_bindEnvironment (metadata : Metadata) (ht : t.Linked)
    (hothers : ∀ other, other ≠ .environment → Mirrors t (ScopeTree.root other) (others other))
    (scope : DynamicScope) :
    Mirrors (metadata.bindEnvironment t) (ScopeTree.root scope)
      (if scope = .environment then environment metadata else others scope) := by
  have hshows := shows_bindConstants metadata.byteOrder metadata.environment.toList []
    (.root ht hothers)
  exact hshows.encloses.roots hshows.mirrors scope

/-- Before the first packet the environment holds its constants and the other scopes hold
nothing. -/
theorem mirrors_baseScopes (metadata : Metadata) (scope : DynamicScope) :
    Mirrors metadata.baseScopes (ScopeTree.root scope)
      (if scope = .environment then environment metadata else .having []) :=
  mirrors_bindEnvironment metadata .empty
    (fun other _ => .vacant (Metadata.vacant_empty other)) scope

theorem built_baseScopes (metadata : Metadata) : metadata.baseScopes.Built := by
  refine (metadata.edits_bindEnvironment .empty).built .empty ?_
  rintro i rfl
  exact ScopeTree.Linked.empty.has_root .environment

/-- A linked tree in which the dynamic scopes other than one hold what is given. -/
def Holds (scope : DynamicScope) (others : DynamicScope → Content) (t : ScopeTree) : Prop :=
  t.Linked ∧ ∀ other, other ≠ scope → Mirrors t (ScopeTree.root other) (others other)

/-- Decoding the content of a dynamic scope goes in step, whatever the scope held before. -/
theorem inStep_decodeRoot (type : Declaration) (scope : DynamicScope)
    (others : DynamicScope → Content) :
    InStep (Holds scope others) (type.decodeRoot scope) (decodeRoot type scope others)
      (Completed (.root scope others) [] (ScopeTree.root scope)) := by
  refine (InStep.align type.alignment).andThen fun _ s hs => ?_
  exact inStep_decodeAt type (.root scope others) [] (ScopeTree.root scope)
    ⟨s.cursor, s.scopes.clear (ScopeTree.root scope)⟩ (.root hs.1 hs.2)

/-- What comes of decoding a value, apart from the tree of scopes. -/
def outcome : EStateM.Result Error Decoding Value → Except Error (Datum × Cursor)
  | .ok value s => .ok (value.datum, s.cursor)
  | .error e _ => .error e

/-- Decoding the content of a dynamic scope in any tree gives the same value at the same
cursor as decoding it with lexical scopes, or fails in the same way. -/
theorem outcome_decodeRoot (type : Declaration) (scope : DynamicScope)
    (others : DynamicScope → Content) (cursor : Cursor) {t : ScopeTree} (ht : t.Built)
    (hothers : ∀ other, other ≠ scope → Mirrors t (ScopeTree.root other) (others other)) :
    outcome (type.decodeRoot scope ⟨cursor, t⟩) = decodeRoot type scope others cursor := by
  have hrun := inStep_decodeRoot type scope others ⟨cursor, t⟩ ⟨ht.linked, hothers⟩
  cases hresult : type.decodeRoot scope ⟨cursor, t⟩ with
  | ok value s =>
    rw [hresult] at hrun
    obtain ⟨datum, hread, rfl, -⟩ := hrun
    exact hread.symm
  | error e s =>
    rw [hresult] at hrun
    exact hrun.symm

/-- The constants of a trace: one number. -/
def countTrace : Metadata :=
  let constants : Std.TreeMap String Constant := ∅
  { byteOrder := .little, environment := constants.insert "count" (.integer 3) }

/-- A struct with a field `count` around one with another field `count`, before and after
which sequences refer to it. All numbers have four bits. -/
def countType : Declaration :=
  let number : Declaration :=
    .integer ⟨4, by decide, by decide, false, .little, .decimal, ⟨4, by decide⟩, .none⟩
  let count : FieldPath := ⟨"count", by decide⟩
  let constant : FieldPath := ⟨"env.count", by decide⟩
  .struct ⟨4, by decide⟩
    [("count", number),
      ("body", .struct ⟨4, by decide⟩
        [("before", .sequence count number), ("count", number),
          ("constant", .sequence constant number), ("after", .sequence count number)])]

/-- Eight numbers: 1, 10, 2, 4, 5, 6, 7 and 8. -/
def countBytes : ByteArray := ⟨#[0xA1, 0x42, 0x65, 0x87]⟩

/-- What the dynamic scopes hold before the first packet. -/
def countScopes (scope : DynamicScope) : Content :=
  if scope = .environment then environment countTrace else .having []

/-- The one element before the inner `count` follows the outer one, and the two after it the
inner one. -/
theorem outcome_decodeRoot_count :
    outcome (countType.decodeRoot .eventFields ⟨.ofBytes countBytes, countTrace.baseScopes⟩) =
      decodeRoot countType .eventFields countScopes (.ofBytes countBytes) ∧
    (decodeRoot countType .eventFields countScopes (.ofBytes countBytes)).toOption.map
      (·.2.position) = some 32 :=
  ⟨outcome_decodeRoot countType .eventFields countScopes _ (built_baseScopes countTrace)
    fun other _ => mirrors_baseScopes countTrace other, by decide +kernel⟩

/-- Once the content of a dynamic scope is decoded, the scope holds it and the others hold
what they held. -/
theorem mirrors_decodeRoot {type : Declaration} {cursor : Cursor} {value : Value} {s : Decoding}
    (ht : t.Built)
    (hothers : ∀ other, other ≠ scope → Mirrors t (ScopeTree.root other) (others other))
    (hrun : type.decodeRoot scope ⟨cursor, t⟩ = .ok value s) :
    s.scopes.Built ∧ ∀ other, Mirrors s.scopes (ScopeTree.root other)
      (if other = scope then .complete value.datum else others other) := by
  constructor
  · refine (Declaration.edits_of_decodeRoot hrun).built ht ?_
    rintro i rfl
    exact ht.linked.has_root scope
  · have hstep := inStep_decodeRoot type scope others ⟨cursor, t⟩ ⟨ht.linked, hothers⟩
    rw [hrun] at hstep
    obtain ⟨datum, -, -, hshows⟩ := hstep
    exact hshows.encloses.roots hshows.mirrors

end CommonTrace.Lexical
