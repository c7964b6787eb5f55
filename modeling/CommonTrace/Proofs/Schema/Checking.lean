import Mathlib.Data.List.Sort
import CommonTrace.Proofs.Schema.Explicit

/-!
# Building metadata from a schema

Metadata are built from exactly the schemas that are sound, and they are the schema, made explicit.
Every check is told to let exactly what is sound pass, together with what it makes of it, so that
checks made one after the other are put together as they are in the definitions. Types are followed
from a description to its parts, and lists from their first element on.
-/
namespace CommonTrace.Schema

variable {α β : Type} {result : Except Malformation α} {sound sound' : Prop} {P P' : α → Prop}
  {order : ByteOrder}

/-- The result of a check that lets exactly what is sound pass, and then has a property. -/
def Checks (result : Except Malformation α) (sound : Prop) (P : α → Prop) : Prop :=
  match result with
  | .ok a => sound ∧ P a
  | .error _ => ¬ sound

namespace Checks

theorem ok {a : α} (h : P a) : Checks (.ok a) True P := ⟨trivial, h⟩

theorem congr (h : Checks result sound P) (hsound : sound ↔ sound') : Checks result sound' P :=
  propext hsound ▸ h

theorem mono (h : Checks result sound P) (hP : ∀ a, P a → P' a) : Checks result sound P' := by
  cases result with
  | error fault => exact h
  | ok a => exact ⟨h.1, hP a h.2⟩

theorem map {Q : β → Prop} {f : α → β} (h : Checks result sound P) (hf : ∀ a, P a → Q (f a)) :
    Checks (f <$> result) sound Q := by
  cases result with
  | error fault => exact h
  | ok a => exact ⟨h.1, hf a h.2⟩

/-- Of two checks, one after the other, both have to let pass. -/
theorem bind {Q : β → Prop} {next : α → Except Malformation β} (h : Checks result sound P)
    (hnext : ∀ a, sound → P a → Checks (next a) sound' Q) :
    Checks (result >>= next) (sound ∧ sound') Q := by
  cases result with
  | error fault => exact fun hboth => h hboth.1
  | ok a =>
    have hchecks : Checks (next a) sound' Q := hnext a h.1 h.2
    exact hchecks.congr (and_iff_right h.1).symm

/-- A single condition, without which there is a fault. -/
theorem dite {c : Prop} [Decidable c] {a : c → α} {fault : Malformation} (h : ∀ hc, P (a hc)) :
    Checks (if hc : c then .ok (a hc) else .error fault) c P := by
  split
  next hc => exact ⟨hc, h hc⟩
  next hc => exact hc

/-- A single condition that is a fault. -/
theorem ite {c : Prop} [Decidable c] {a : α} {fault : Malformation} (h : P a) :
    Checks (if c then .error fault else .ok a) (¬ c) P := by
  split
  next hc => exact fun hnot => hnot hc
  next hc => exact ⟨hc, h⟩

end Checks

theorem natural_eq_defaultAlignment (size : Nat) :
    Alignment.natural size = defaultAlignment size :=
  if_congr Nat.dvd_iff_mod_eq_zero.symm rfl rfl

/-- Only an alignment that is given can be nothing. -/
theorem alignment_pos_iff {own : Option Nat} {size : Nat} :
    0 < own.getD (Alignment.natural size) ↔ own ≠ some 0 := by
  cases own with
  | none =>
    refine iff_of_true ?_ nofun
    rw [Option.getD_none, natural_eq_defaultAlignment, defaultAlignment]
    split <;> decide
  | some bits => rw [Option.getD_some, Nat.pos_iff_ne_zero, Ne, Ne, Option.some.injEq]

/-- The bases of integers are those of a radix. -/
theorem ofBase?_cases (base : Nat) :
    (∃ radix, Radix.ofBase? base = some radix ∧ radix.base = base ∧ base ∈ [2, 8, 10, 16]) ∨
      Radix.ofBase? base = none ∧ base ∉ [2, 8, 10, 16] := by
  by_cases hmem : base ∈ [2, 8, 10, 16]
  · left
    have hcases : base = 2 ∨ base = 8 ∨ base = 10 ∨ base = 16 := by simpa using hmem
    obtain rfl | rfl | rfl | rfl := hcases
    exacts [⟨.binary, rfl, rfl, hmem⟩, ⟨.octal, rfl, rfl, hmem⟩, ⟨.decimal, rfl, rfl, hmem⟩,
      ⟨.hexadecimal, rfl, rfl, hmem⟩]
  · right
    refine ⟨?_, hmem⟩
    simp only [List.mem_cons, List.not_mem_nil, not_or, or_false] at hmem
    obtain ⟨h2, h8, h10, h16⟩ := hmem
    rw [Radix.ofBase?, if_neg h2, if_neg h8, if_neg h10, if_neg h16]

theorem IntegerSpec.checks_type (spec : IntegerSpec) :
    Checks (spec.type order) spec.Sound (·.toSpec = spec.explicit order) := by
  unfold IntegerSpec.type IntegerType.ofLayout
  split
  next hsize =>
    split
    next halignment =>
      rcases ofBase?_cases spec.base with ⟨radix, hradix, hbase, hmem⟩ | ⟨hradix, hmem⟩
      · rw [hradix]
        refine ⟨⟨hsize, hmem, alignment_pos_iff.1 halignment⟩, ?_⟩
        simp only [IntegerType.toSpec, IntegerSpec.explicit, hbase, natural_eq_defaultAlignment]
      · rw [hradix]
        exact fun h => hmem h.base
    next halignment => exact fun h => halignment (alignment_pos_iff.2 h.alignment)
  next hsize => exact fun h => hsize h.size

theorem checks_floatLayout (exponentBits mantissaBits alignment : Nat) :
    Checks (FloatType.ofLayout exponentBits mantissaBits order alignment)
      (((exponentBits, mantissaBits) = (8, 24) ∨ (exponentBits, mantissaBits) = (11, 53)) ∧
        0 < alignment)
      fun type => type.precision.exponentBits = exponentBits ∧
        type.precision.mantissaBits = mantissaBits ∧ type.order = order ∧
        type.alignment.bits = alignment := by
  unfold FloatType.ofLayout
  dsimp only
  by_cases hsingle : exponentBits = 8 ∧ mantissaBits = 24
  · rw [if_pos hsingle]
    refine (Checks.dite fun _ => ⟨hsingle.1.symm, hsingle.2.symm, rfl, rfl⟩).congr ?_
    exact (and_iff_right (.inl (Prod.ext hsingle.1 hsingle.2))).symm
  · rw [if_neg hsingle]
    by_cases hdouble : exponentBits = 11 ∧ mantissaBits = 53
    · rw [if_pos hdouble]
      refine (Checks.dite fun _ => ⟨hdouble.1.symm, hdouble.2.symm, rfl, rfl⟩).congr ?_
      exact (and_iff_right (.inr (Prod.ext hdouble.1 hdouble.2))).symm
    · rw [if_neg hdouble]
      rintro ⟨h | h, -⟩
      · exact hsingle (Prod.mk.inj h)
      · exact hdouble (Prod.mk.inj h)

theorem checks_float (exponentBits mantissaBits : Nat) (own : Option ByteOrder)
    (alignment : Option Nat) :
    Checks ((TypeSpec.float exponentBits mantissaBits own alignment).declaration order)
      (TypeSpec.float exponentBits mantissaBits own alignment).Sound
      (·.toSpec = (TypeSpec.float exponentBits mantissaBits own alignment).explicit order) := by
  refine ((checks_floatLayout _ _ _).map fun type h => ?_).congr
    (and_congr_right' alignment_pos_iff)
  obtain ⟨hexponent, hmantissa, horder, halignment⟩ := h
  rw [Declaration.toSpec, TypeSpec.explicit, hexponent, hmantissa, horder, halignment,
    natural_eq_defaultAlignment]

theorem MappingSpec.checks_addTo (spec : MappingSpec) (type : EnumType) :
    Checks (spec.addTo type) spec.Sound fun type' => type'.container = type.container ∧
      type'.mappings.map Mapping.toSpec = type.mappings.map Mapping.toSpec ++ [spec.explicit] :=
  Checks.dite fun _ => ⟨rfl, List.map_append⟩

/-- Ranges are added in order. -/
theorem checks_mappings (mappings : List MappingSpec) (type : EnumType) :
    Checks (mappings.foldlM MappingSpec.addTo type) (∀ mapping ∈ mappings, mapping.Sound)
      fun type' => type'.container = type.container ∧
        type'.mappings.map Mapping.toSpec =
          type.mappings.map Mapping.toSpec ++ mappings.map MappingSpec.explicit := by
  induction mappings generalizing type with
  | nil =>
    exact (Checks.ok ⟨rfl, (List.append_nil _).symm⟩).congr (iff_of_true trivial nofun)
  | cons mapping mappings ih =>
    rw [List.foldlM_cons]
    refine ((mapping.checks_addTo type).bind fun type' _ h =>
      (ih type').mono fun all hall => ?_).congr List.forall_mem_cons.symm
    refine ⟨hall.1.trans h.1, ?_⟩
    rw [hall.2, h.2, List.map_cons, List.append_assoc, List.singleton_append]

theorem checks_enumeration (container : IntegerSpec) (mappings : List MappingSpec) :
    Checks ((TypeSpec.enumeration container mappings).declaration order)
      (TypeSpec.enumeration container mappings).Sound
      (·.toSpec = (TypeSpec.enumeration container mappings).explicit order) := by
  refine container.checks_type.bind fun type _ htype =>
    (checks_mappings mappings ⟨type, []⟩).map fun type' h => ?_
  rw [Declaration.toSpec, TypeSpec.explicit, h.1, htype, h.2, List.map_nil, List.nil_append]

/-- A path without names is a path with an empty name. -/
theorem isPath_iff {text : String} : IsPath text ↔ "" ∉ Text.splitDots text := by
  refine and_iff_right_of_imp fun h hempty => h ?_
  rw [hempty]
  decide

theorem checks_fieldPath (text : String) :
    Checks (FieldPath.parse text) (IsPath text) (·.text = text) := by
  refine Checks.congr ?_ isPath_iff.symm
  exact Checks.dite fun _ => rfl

/-- Names that are added to others without repetition are new, one after the other. -/
theorem nodup_append_cons {names rest : List String} {name : String} :
    (names ++ name :: rest).Nodup ↔ name ∉ names ∧ (names ++ [name] ++ rest).Nodup := by
  rw [List.append_assoc, List.singleton_append]
  refine (and_iff_right_of_imp fun h hmem => ?_).symm
  rw [List.nodup_middle, List.nodup_cons] at h
  exact h.1 (List.mem_append_left _ hmem)

theorem nodup_append_singleton {names : List String} {name : String} (h : names.Nodup)
    (hname : name ∉ names) : (names ++ [name]).Nodup := by
  rw [List.nodup_middle, List.append_nil]
  exact List.nodup_cons.2 ⟨hname, h⟩

theorem checks_addField (fields : List (String × Declaration)) (field : String × Declaration) :
    Checks (Declaration.addField fields field) (field.1 ≠ "" ∧ field.1 ∉ fields.map (·.1))
      (· = fields ++ [field]) := by
  unfold Declaration.addField
  split
  next hempty => exact fun h => h.1 hempty
  next hname =>
    split
    next hmem => exact fun h => h.2 hmem
    next hnew => exact ⟨⟨hname, hnew⟩, rfl⟩

theorem checks_addOption (options : List (String × Declaration)) (option : String × Declaration) :
    Checks (Declaration.addOption options option) (option.1 ∉ options.map (·.1))
      (· = options ++ [option]) :=
  Checks.ite rfl

/-- Fields are added in order. -/
theorem checks_addFields (added fields : List (String × Declaration))
    (hfields : (fields.map (·.1)).Nodup) :
    Checks (added.foldlM Declaration.addField fields)
      ("" ∉ added.map (·.1) ∧ (fields.map (·.1) ++ added.map (·.1)).Nodup)
      (· = fields ++ added) := by
  induction added generalizing fields with
  | nil =>
    refine (Checks.ok (List.append_nil fields).symm).congr (iff_of_true trivial ⟨nofun, ?_⟩)
    rwa [List.map_nil, List.append_nil]
  | cons field added ih =>
    rw [List.foldlM_cons, List.map_cons, nodup_append_cons]
    have hrest (all : List (String × Declaration))
        (hnew : field.1 ≠ "" ∧ field.1 ∉ fields.map (·.1)) (hall : all = fields ++ [field]) :
        Checks (added.foldlM Declaration.addField all)
          ("" ∉ added.map (·.1) ∧ (fields.map (·.1) ++ [field.1] ++ added.map (·.1)).Nodup)
          (· = fields ++ field :: added) := by
      have hnames : all.map (·.1) = fields.map (·.1) ++ [field.1] := by
        rw [hall, List.map_append, List.map_singleton]
      have hchecks := ih all (hnames ▸ nodup_append_singleton hfields hnew.2)
      rw [hnames, hall] at hchecks
      refine hall ▸ hchecks.mono fun types htypes => ?_
      rw [htypes, List.append_assoc, List.singleton_append]
    refine ((checks_addField fields field).bind hrest).congr ?_
    rw [List.mem_cons, not_or, and_and_and_comm, ne_comm]

/-- A struct is made of fields that have been made. -/
theorem checks_ofFields (minAlignment : Nat) (fields : List (String × Declaration)) :
    Checks (Declaration.ofFields minAlignment fields)
      (1 ≤ minAlignment ∧ "" ∉ fields.map (·.1) ∧ (fields.map (·.1)).Nodup)
      fun type => ∃ s : StructType, type = s.declaration ∧ s.minAlignment.bits = minAlignment ∧
        s.fields = fields := by
  unfold Declaration.ofFields
  split
  next hpositive =>
    refine ((checks_addFields fields [] List.nodup_nil).map fun all hall => ?_).congr
      (and_iff_right hpositive).symm
    exact ⟨⟨⟨minAlignment, hpositive⟩, all⟩, rfl, rfl, hall⟩
  next hzero => exact fun h => hzero h.1

section Types

variable {minAlignment : Nat} {fields : List (String × TypeSpec)}

theorem checks_struct
    (h : Checks (TypeSpec.fieldDeclarations order fields) (TypeSpec.AllSound fields)
      (Declaration.allToSpec · = TypeSpec.allExplicit order fields)) :
    Checks ((TypeSpec.struct minAlignment fields).declaration order)
      (TypeSpec.struct minAlignment fields).Sound
      fun type => ∃ s : StructType, type = s.declaration ∧
        s.toSpec = StructSpec.explicit order ⟨minAlignment, fields⟩ := by
  have hmade (types : List (String × Declaration)) (_ : TypeSpec.AllSound fields)
      (htypes : Declaration.allToSpec types = TypeSpec.allExplicit order fields) :
      Checks (Declaration.ofFields minAlignment types)
        (1 ≤ minAlignment ∧ "" ∉ fields.map (·.1) ∧ (fields.map (·.1)).Nodup)
        fun type => ∃ s : StructType, type = s.declaration ∧
          s.toSpec = StructSpec.explicit order ⟨minAlignment, fields⟩ := by
    have hnames : types.map (·.1) = fields.map (·.1) := by
      rw [← Declaration.names_allToSpec, htypes, TypeSpec.names_allExplicit]
    rw [← hnames]
    refine (checks_ofFields minAlignment types).mono fun type htype => ?_
    obtain ⟨s, hs, halignment, hfields⟩ := htype
    exact ⟨s, hs, by rw [StructType.toSpec, halignment, hfields, htypes, StructSpec.explicit]⟩
  refine (h.bind hmade).congr ?_
  rw [TypeSpec.Sound, and_comm, and_assoc, and_assoc]

mutual

/-- The types described are those that are sound, made explicit. -/
theorem checks_declaration : (spec : TypeSpec) →
    Checks (spec.declaration order) spec.Sound (·.toSpec = spec.explicit order)
  | .integer spec => spec.checks_type.map fun _ h => congrArg TypeSpec.integer h
  | .float exponentBits mantissaBits own alignment =>
    checks_float exponentBits mantissaBits own alignment
  | .enumeration container mappings => checks_enumeration container mappings
  | .string _ => .ok rfl
  | .struct minAlignment fields => by
    refine (checks_struct (checks_fieldDeclarations fields)).mono fun type htype => ?_
    obtain ⟨s, rfl, hs⟩ := htype
    obtain ⟨halignment, hfields⟩ := StructSpec.mk.inj hs
    rw [StructType.declaration, Declaration.toSpec, TypeSpec.explicit, halignment, hfields]
  | .array length element =>
    (checks_declaration element).map fun _ h => congrArg (TypeSpec.array length) h
  | .sequence length element => by
    refine ((checks_declaration element).bind fun type _ htype =>
      (checks_fieldPath length).map fun path hpath => ?_).congr and_comm
    rw [Declaration.toSpec, TypeSpec.explicit, htype, hpath]
  | .variant tag options => by
    refine (checks_fieldPath tag).bind fun path _ hpath =>
      ((checks_optionDeclarations options [] List.nodup_nil).map fun types htypes => ?_).congr
        and_comm
    rw [Declaration.toSpec, TypeSpec.explicit, hpath, htypes]
    rfl

theorem checks_fieldDeclarations : (fields : List (String × TypeSpec)) →
    Checks (TypeSpec.fieldDeclarations order fields) (TypeSpec.AllSound fields)
      (Declaration.allToSpec · = TypeSpec.allExplicit order fields)
  | [] => .ok rfl
  | (name, spec) :: fields => by
    refine (checks_declaration spec).bind fun type _ htype =>
      (checks_fieldDeclarations fields).map fun types htypes => ?_
    rw [Declaration.allToSpec, TypeSpec.allExplicit, htype, htypes]

theorem checks_optionDeclarations : (added : List (String × TypeSpec)) →
    (options : List (String × Declaration)) → (options.map (·.1)).Nodup →
    Checks (TypeSpec.optionDeclarations order added options)
      (TypeSpec.AllSound added ∧ (options.map (·.1) ++ added.map (·.1)).Nodup)
      (Declaration.allToSpec · =
        Declaration.allToSpec options ++ TypeSpec.allExplicit order added)
  | [], options, hoptions => by
    refine (Checks.ok ?_).congr (iff_of_true trivial ⟨trivial, ?_⟩)
    · rw [TypeSpec.allExplicit, List.append_nil]
    · rwa [List.map_nil, List.append_nil]
  | (name, spec) :: added, options, hoptions => by
    -- the type of an alternative is made before its name is compared with those before it
    have hrest (type : Declaration) (_ : spec.Sound) (htype : type.toSpec = spec.explicit order) :
        Checks (Declaration.addOption options (name, type) >>=
            TypeSpec.optionDeclarations order added)
          (name ∉ options.map (·.1) ∧ TypeSpec.AllSound added ∧
            (options.map (·.1) ++ [name] ++ added.map (·.1)).Nodup)
          (Declaration.allToSpec · = Declaration.allToSpec options ++
            TypeSpec.allExplicit order ((name, spec) :: added)) := by
      refine (checks_addOption options (name, type)).bind fun all hnew hall => ?_
      have hnames : all.map (·.1) = options.map (·.1) ++ [name] := by
        rw [hall, List.map_append, List.map_singleton]
      have hchecks := checks_optionDeclarations added all
        (hnames ▸ nodup_append_singleton hoptions hnew)
      rw [hnames] at hchecks
      refine hchecks.mono fun types htypes => ?_
      rw [htypes, hall, Declaration.allToSpec_append, List.append_assoc, TypeSpec.allExplicit,
        ← htype]
      rfl
    refine ((checks_declaration spec).bind hrest).congr ?_
    rw [TypeSpec.AllSound, List.map_cons, nodup_append_cons, and_assoc,
      and_left_comm (b := TypeSpec.AllSound added)]

end

end Types

theorem StructSpec.checks_section (spec : StructSpec) (scope : DynamicScope) :
    Checks (spec.section order scope) spec.Sound (·.toSpec = spec.explicit order) := by
  have hstruct : Checks ((TypeSpec.struct spec.minAlignment spec.fields).declaration order)
      spec.Sound fun type => ∃ s : StructType, type = s.declaration ∧
        s.toSpec = spec.explicit order :=
    checks_struct (checks_fieldDeclarations spec.fields)
  refine (hstruct.bind fun type _ htype => ?_).congr (and_iff_left trivial)
  obtain ⟨s, rfl, hs⟩ := htype
  exact .ok hs

/-- There is a section where there is a description. -/
theorem checks_sectionOf (spec : Option StructSpec) (scope : DynamicScope) :
    Checks (sectionOf spec order scope) (SectionSound spec)
      (Option.map StructType.toSpec · = spec.map (·.explicit order)) := by
  cases spec with
  | none => exact (Checks.ok rfl).congr (iff_of_true trivial nofun)
  | some spec =>
    have hsome : Checks (some <$> spec.section order scope) spec.Sound
        (Option.map StructType.toSpec · = some (spec.explicit order)) :=
      (spec.checks_section scope).map fun _ hs => congrArg some hs
    refine hsome.congr ?_
    exact ⟨fun h s hs => Option.some.inj hs ▸ h, fun h => h spec rfl⟩

theorem insertEvent_eq (event : EventClass) (events : List EventClass) :
    StreamClass.insertEvent event events = events.orderedInsert (·.id < ·.id) event := by
  induction events with
  | nil => rfl
  | cons other events ih => rw [StreamClass.insertEvent, List.orderedInsert, ih]

theorem insertStream_eq (stream : StreamClass) (streams : List StreamClass) :
    Metadata.insertStream stream streams = streams.orderedInsert (·.id < ·.id) stream := by
  induction streams with
  | nil => rfl
  | cons other streams ih => rw [Metadata.insertStream, List.orderedInsert, ih]

section Numbered

variable {number : α → Nat} {a : α} {l l' : List α}

/-- A class with a new number is put in its place. -/
theorem pairwise_orderedInsert (h : l.Pairwise (number · < number ·))
    (hnew : number a ∉ l.map number) :
    (l.orderedInsert (number · < number ·) a).Pairwise (number · < number ·) := by
  induction l with
  | nil => exact List.pairwise_singleton _ _
  | cons b l ih =>
    obtain ⟨hb, hl⟩ := List.pairwise_cons.1 h
    rw [List.map_cons, List.mem_cons, not_or] at hnew
    rw [List.orderedInsert]
    split
    next hlt =>
      refine List.pairwise_cons.2 ⟨fun c hc => ?_, h⟩
      rcases List.mem_cons.1 hc with rfl | hc
      · exact hlt
      · exact hlt.trans (hb c hc)
    next hge =>
      refine List.pairwise_cons.2 ⟨fun c hc => ?_, ih hl hnew.2⟩
      rcases (List.mem_orderedInsert _).1 hc with rfl | hc
      · omega
      · exact hb c hc

/-- There is one order of numbers without repetition. -/
theorem eq_mergeSort (h : l.Pairwise (number · < number ·)) (hperm : l.Perm l') :
    l = l'.mergeSort (number · ≤ number ·) := by
  have hsorted := hperm.trans (List.mergeSort_perm l' (number · ≤ number ·)).symm
  have hdistinct : (l'.mergeSort (number · ≤ number ·)).Pairwise (number · ≠ number ·) :=
    (hsorted.pairwise_iff fun hne => hne.symm).1 (h.imp Nat.ne_of_lt)
  have hle : (l'.mergeSort (number · ≤ number ·)).Pairwise (number · ≤ number ·) := by
    simpa using @List.pairwise_mergeSort α (number · ≤ number ·) (by grind) (by grind) l'
  -- the same numbers are strictly in order in both lists
  refine hsorted.eq_of_pairwise (fun a b _ _ hab hba => absurd hab hba.asymm) h ?_
  exact (hle.and hdistinct).imp fun h => lt_of_le_of_ne h.1 h.2

/-- A number is found where a class has it. -/
theorem isSome_find?_number {n : Nat} :
    (l.find? (number · == n)).isSome ↔ n ∈ l.map number := by
  rw [List.find?_isSome, List.mem_map]
  simp only [beq_iff_eq]

end Numbered

section Adding

variable {ι σ : Type} (add : σ → ι → Except Malformation σ) (state : List α → σ)
  {key : α → Nat} {number : ι → Nat} {fits : ι → Prop} {toSpec : α → β} {written : ι → β}

/-- Where a class is put in its place if its number is new, and so on, the classes are in order in
the end. What is kept beside the classes is left as it is. -/
theorem checks_addAll
    (hadd : ∀ classes i, Checks (add (state classes) i) (fits i ∧ number i ∉ classes.map key)
      fun s => ∃ a, key a = number i ∧ toSpec a = written i ∧
        s = state (classes.orderedInsert (key · < key ·) a))
    (added : List ι) {classes : List α} (hclasses : classes.Pairwise (key · < key ·)) :
    Checks (added.foldlM add (state classes))
      ((∀ i ∈ added, fits i) ∧ (classes.map key ++ added.map number).Nodup)
      fun s => ∃ all, s = state all ∧ all.Pairwise (key · < key ·) ∧
        (all.map toSpec).Perm (classes.map toSpec ++ added.map written) := by
  induction added generalizing classes with
  | nil =>
    refine (Checks.ok ⟨classes, rfl, hclasses, ?_⟩).congr (iff_of_true trivial ⟨nofun, ?_⟩)
    · rw [List.map_nil, List.append_nil]
    · rw [List.map_nil, List.append_nil]
      exact List.pairwise_map.2 (hclasses.imp Nat.ne_of_lt)
  | cons i added ih =>
    -- after the first class has been put in its place, there is one number more that is not new
    have hrest (s : σ) (hnew : fits i ∧ number i ∉ classes.map key)
        (hs : ∃ a, key a = number i ∧ toSpec a = written i ∧
          s = state (classes.orderedInsert (key · < key ·) a)) :
        Checks (added.foldlM add s)
          ((∀ j ∈ added, fits j) ∧ (classes.map key ++ number i :: added.map number).Nodup)
          fun s => ∃ all, s = state all ∧ all.Pairwise (key · < key ·) ∧
            (all.map toSpec).Perm (classes.map toSpec ++ written i :: added.map written) := by
      obtain ⟨a, hkey, hspec, rfl⟩ := hs
      have hinsert := List.perm_orderedInsert (key · < key ·) a classes
      have hkeys : (classes.orderedInsert (key · < key ·) a).map key |>.Perm
          (number i :: classes.map key) := hkey ▸ hinsert.map key
      have hspecs : (classes.orderedInsert (key · < key ·) a).map toSpec |>.Perm
          (written i :: classes.map toSpec) := hspec ▸ hinsert.map toSpec
      have hchecks := ih (pairwise_orderedInsert hclasses (hkey ▸ hnew.2))
      refine (hchecks.mono fun s hs => ?_).congr (and_congr_right' ?_)
      · obtain ⟨all, hstate, hall, hperm⟩ := hs
        exact ⟨all, hstate, hall,
          (hperm.trans (hspecs.append_right _)).trans List.perm_middle.symm⟩
      · exact ((hkeys.append_right _).trans List.perm_middle.symm).nodup_iff
    rw [List.foldlM_cons]
    refine ((hadd classes i).bind hrest).congr ?_
    -- that the first number is new is part of what is said of all numbers
    rw [List.forall_mem_cons, List.map_cons, List.nodup_middle, List.nodup_cons, List.mem_append,
      not_or]
    tauto

/-- From none at first, the classes are those described, in the order of their numbers. -/
theorem checks_addSorted {id : β → Nat} (hid : ∀ a, id (toSpec a) = key a)
    (hadd : ∀ classes i, Checks (add (state classes) i) (fits i ∧ number i ∉ classes.map key)
      fun s => ∃ a, key a = number i ∧ toSpec a = written i ∧
        s = state (classes.orderedInsert (key · < key ·) a))
    (added : List ι) :
    Checks (added.foldlM add (state [])) ((∀ i ∈ added, fits i) ∧ (added.map number).Nodup)
      fun s => ∃ all, s = state all ∧
        all.map toSpec = (added.map written).mergeSort (id · ≤ id ·) := by
  refine (checks_addAll add state hadd added List.Pairwise.nil).mono fun s hs => ?_
  obtain ⟨all, hstate, hall, hperm⟩ := hs
  refine ⟨all, hstate, eq_mergeSort (List.pairwise_map.2 (hall.imp fun h => ?_)) hperm⟩
  rwa [hid, hid]

end Adding

theorem EventSpec.checks_eventClass (spec : EventSpec) :
    Checks (spec.eventClass order) spec.Sound (·.toSpec = spec.explicit order) := by
  refine ((checks_sectionOf spec.context .eventContext).bind fun context _ hcontext =>
    (checks_sectionOf spec.fields .eventFields).bind fun fields _ hfields =>
      Checks.ok ?_).congr ?_
  · rw [EventClass.toSpec, EventSpec.explicit, hcontext, hfields]
  · exact ⟨fun h => ⟨h.1, h.2.1⟩, fun h => ⟨h.context, h.fields, trivial⟩⟩

theorem checks_addEvent (stream : StreamClass) (event : EventClass) :
    Checks (stream.addEvent event) (event.id ∉ stream.events.map (·.id))
      (· = { stream with events := stream.events.orderedInsert (·.id < ·.id) event }) := by
  rw [← insertEvent_eq]
  refine Checks.congr ?_ (not_congr isSome_find?_number)
  exact Checks.ite rfl

theorem checks_addStream (m : Metadata) (stream : StreamClass) :
    Checks (m.addStream stream) (stream.id ∉ m.streams.map (·.id))
      (· = { m with streams := m.streams.orderedInsert (·.id < ·.id) stream }) := by
  rw [← insertStream_eq]
  refine Checks.congr ?_ (not_congr isSome_find?_number)
  exact Checks.ite rfl

/-- The events described are added to a class of streams. -/
theorem checks_addEvents (stream : StreamClass) (events : List EventSpec) :
    Checks (events.foldlM (fun stream event => event.eventClass order >>= stream.addEvent)
        { stream with events := [] })
      ((∀ event ∈ events, event.Sound) ∧ (events.map (·.id)).Nodup)
      fun stream' => ∃ all, stream' = { stream with events := all } ∧
        all.map EventClass.toSpec = (events.map (·.explicit order)).mergeSort (·.id ≤ ·.id) := by
  let state (all : List EventClass) : StreamClass := { stream with events := all }
  let add (stream : StreamClass) (event : EventSpec) := event.eventClass order >>= stream.addEvent
  have hadd (all : List EventClass) (event : EventSpec) :
      Checks (add (state all) event) (event.Sound ∧ event.id ∉ all.map EventClass.id)
        fun stream' => ∃ c : EventClass, c.id = event.id ∧ c.toSpec = event.explicit order ∧
          stream' = state (all.orderedInsert (·.id < ·.id) c) := by
    refine event.checks_eventClass.bind fun c _ hc => ?_
    have hid : c.id = event.id := congrArg EventSpec.id hc
    rw [← hid]
    exact (checks_addEvent (state all) c).mono fun stream' h => ⟨c, rfl, hc, h⟩
  exact checks_addSorted add state (fun _ => rfl) hadd events

theorem StreamSpec.checks_streamClass (spec : StreamSpec) :
    Checks (spec.streamClass order) spec.Sound (·.toSpec = spec.explicit order) := by
  refine ((checks_sectionOf spec.packetContext .packetContext).bind fun packetContext _ hpacket =>
    (checks_sectionOf spec.eventHeader .eventHeader).bind fun eventHeader _ hheader =>
      (checks_sectionOf spec.eventContext .streamEventContext).bind fun eventContext _ hcontext =>
        (checks_addEvents { id := spec.id, packetContext, eventHeader, eventContext }
          spec.events).mono fun stream hstream => ?_).congr ?_
  · obtain ⟨events, rfl, hevents⟩ := hstream
    rw [StreamClass.toSpec, StreamSpec.explicit, hpacket, hheader, hcontext, hevents]
  · exact ⟨fun h => ⟨h.1, h.2.1, h.2.2.1, h.2.2.2.1, h.2.2.2.2⟩,
      fun h => ⟨h.packetContext, h.eventHeader, h.eventContext, h.events, h.distinct⟩⟩

/-- The streams described are added to metadata. -/
theorem checks_addStreams (m : Metadata) (streams : List StreamSpec) :
    Checks (streams.foldlM (fun m stream => stream.streamClass order >>= m.addStream)
        { m with streams := [] })
      ((∀ stream ∈ streams, stream.Sound) ∧ (streams.map (·.id)).Nodup)
      fun m' => ∃ all, m' = { m with streams := all } ∧
        all.map StreamClass.toSpec = (streams.map (·.explicit order)).mergeSort (·.id ≤ ·.id) := by
  let state (all : List StreamClass) : Metadata := { m with streams := all }
  let add (m : Metadata) (stream : StreamSpec) := stream.streamClass order >>= m.addStream
  have hadd (all : List StreamClass) (stream : StreamSpec) :
      Checks (add (state all) stream) (stream.Sound ∧ stream.id ∉ all.map StreamClass.id)
        fun m' => ∃ c : StreamClass, c.id = stream.id ∧ c.toSpec = stream.explicit order ∧
          m' = state (all.orderedInsert (·.id < ·.id) c) := by
    refine stream.checks_streamClass.bind fun c _ hc => ?_
    have hid : c.id = stream.id := congrArg StreamSpec.id hc
    rw [← hid]
    exact (checks_addStream (state all) c).mono fun m' h => ⟨c, rfl, hc, h⟩
  exact checks_addSorted add state (fun _ => rfl) hadd streams

theorem TraceSpec.checks_metadata (spec : TraceSpec) :
    Checks spec.metadata spec.Sound (·.toSpec = spec.explicit) := by
  refine ((checks_sectionOf spec.packetHeader .packetHeader).bind fun packetHeader _ hheader =>
    (checks_addStreams
      { byteOrder := spec.byteOrder, uuid := spec.uuid, environment := spec.environment,
        packetHeader } spec.streams).mono fun m hm => ?_).congr ?_
  · obtain ⟨streams, rfl, hstreams⟩ := hm
    rw [Metadata.toSpec, TraceSpec.explicit, hheader, hstreams]
  · exact ⟨fun h => ⟨h.1, h.2.1, h.2.2⟩, fun h => ⟨h.packetHeader, h.streams, h.distinct⟩⟩

/-- Metadata are built from a schema if and only if it is sound, and there is a fault in every other
one. The metadata are those that, written down, are the schema with nothing left to defaults. -/
theorem TraceSpec.metadata_eq_ok_iff (spec : TraceSpec) :
    ((∃ m, spec.metadata = .ok m) ↔ spec.Sound) ∧
      (¬ spec.Sound → ∃ fault, spec.metadata.mapError Error.malformed = .error (.malformed fault)) ∧
      ∀ m, spec.metadata = .ok m ↔ spec.Sound ∧ m.toSpec = spec.explicit := by
  have hchecks := spec.checks_metadata
  cases hmetadata : spec.metadata with
  | error fault =>
    rw [hmetadata] at hchecks
    exact ⟨iff_of_false nofun hchecks, fun _ => ⟨fault, rfl⟩,
      fun m => iff_of_false nofun fun h => hchecks h.1⟩
  | ok m =>
    rw [hmetadata] at hchecks
    obtain ⟨hsound, hspec⟩ := hchecks
    refine ⟨iff_of_true ⟨m, rfl⟩ hsound, fun h => absurd hsound h, fun m' => ?_⟩
    refine ⟨fun h => Except.ok.inj h ▸ ⟨hsound, hspec⟩, fun h => congrArg Except.ok ?_⟩
    exact Metadata.toSpec_injective (hspec.trans h.2.symm)

end CommonTrace.Schema
