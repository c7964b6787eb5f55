import CommonTrace.Proofs.Text.Lossy

/-!
# What replacements stand for

Text is read from any bytes, and what is read can be told without the machine that reads it. The
bytes fall into pieces: the bytes of a character; the first bytes of a character, as many as go
together, where the next byte does not go on with it; and single bytes that begin no character. A
piece of the first kind is read as its character, any other one as one replacement. There is one way
only to take bytes apart like that.
-/
namespace CommonTrace.Text

variable {p : Pending} {bytes rest : List UInt8} {c : Char}

theorem feed_append (progress : Progress) (bytes rest : List UInt8) :
    progress.feed (bytes ++ rest) = (progress.feed bytes).feed rest := by
  induction bytes generalizing progress with
  | nil => cases progress <;> rfl
  | cons byte bytes ih =>
    cases progress with
    | pending p => exact ih _
    | complete c => exact (feed_invalid rest).symm
    | invalid => exact (feed_invalid rest).symm

theorem assemble_append (h : bytes ≠ []) (rest : List UInt8) :
    assemble (bytes ++ rest) = (assemble bytes).feed rest := by
  cases bytes with
  | nil => exact absurd rfl h
  | cons byte bytes => exact feed_append _ bytes rest

/-- A character is completed by as many bytes as it misses. -/
theorem feed_eq_complete (h : (Progress.pending p).feed rest = .complete c) :
    ∃ byte rest', rest = byte :: rest' ∧ p.low.toNat ≤ byte.toNat ∧ byte.toNat ≤ p.high.toNat ∧
      if p.missing ≤ 1 then rest' = [] ∧ c = Char.ofNat (p.payload * 0x40 + byte.toNat % 0x40)
      else (Progress.pending ⟨p.payload * 0x40 + byte.toNat % 0x40, p.missing - 1, 0x80, 0xBF⟩).feed
        rest' = .complete c := by
  cases rest with
  | nil => cases h
  | cons byte rest =>
    have haccept : (p.accept byte).feed rest = .complete c := h
    have hbyte := accept_ofNat p byte.toNat_lt
    rw [UInt8.ofNat_toNat] at hbyte
    rw [hbyte] at haccept
    split at haccept
    next hrange =>
      refine ⟨byte, rest, rfl, hrange.1, hrange.2, ?_⟩
      split at haccept
      next hlast =>
        rw [if_pos hlast]
        cases rest with
        | nil =>
          cases haccept
          exact ⟨rfl, rfl⟩
        | cons _ _ => cases haccept
      next hmore =>
        rw [if_neg hmore]
        exact haccept
    · rw [feed_invalid] at haccept
      cases haccept

/-- The range of the second byte of a character. It is narrower after two of the first bytes, which
excludes longer forms of numbers, surrogates and numbers that are too large. -/
structure SecondRange (first low high : Nat) : Prop where
  le : low ≤ high
  least_le : 0x80 ≤ low
  le_greatest : high ≤ 0xBF
  least_three : first = 0xE0 → 0xA0 ≤ low
  greatest_three : first = 0xED → high ≤ 0x9F
  least_four : first = 0xF0 → 0x90 ≤ low
  greatest_four : first = 0xF4 → high ≤ 0x8F

/-- What a byte begins: a character of its own, one that misses one, two or three bytes, or none. -/
theorem start_cases (byte : UInt8) :
    (byte.toNat < 0x80 ∧ Progress.start byte = .complete (Char.ofNat byte.toNat)) ∨
    (0xC2 ≤ byte.toNat ∧ byte.toNat < 0xE0 ∧
      Progress.start byte = .pending ⟨byte.toNat % 0x20, 1, 0x80, 0xBF⟩) ∨
    (0xE0 ≤ byte.toNat ∧ byte.toNat < 0xF0 ∧ ∃ low high,
      Progress.start byte = .pending ⟨byte.toNat % 0x10, 2, low, high⟩ ∧
      SecondRange byte.toNat low.toNat high.toNat) ∨
    (0xF0 ≤ byte.toNat ∧ byte.toNat ≤ 0xF4 ∧ ∃ low high,
      Progress.start byte = .pending ⟨byte.toNat % 0x08, 3, low, high⟩ ∧
      SecondRange byte.toNat low.toNat high.toNat) ∨
    Progress.start byte = .invalid := by
  have hstart := start_ofNat byte.toNat_lt
  rw [UInt8.ofNat_toNat] at hstart
  rw [hstart]
  generalize byte.toNat = n
  by_cases hone : n < 0x80
  · exact .inl ⟨hone, by rw [if_pos hone]⟩
  by_cases hlate : n < 0xC2
  · rw [if_neg hone, if_pos hlate]
    simp
  by_cases htwo : n < 0xE0
  · exact .inr (.inl ⟨by omega, htwo, by rw [if_neg hone, if_neg hlate, if_pos htwo]⟩)
  rw [if_neg hone, if_neg hlate, if_neg htwo]
  by_cases hthree : n < 0xF0
  · refine .inr (.inr (.inl ⟨by omega, hthree, ?_⟩))
    by_cases hE0 : n = 0xE0
    · subst hE0
      exact ⟨0xA0, 0xBF, rfl, by constructor <;> decide⟩
    by_cases hED : n = 0xED
    · subst hED
      exact ⟨0x80, 0x9F, rfl, by constructor <;> decide⟩
    rw [if_neg hE0, if_neg hED, if_pos hthree]
    exact ⟨0x80, 0xBF, rfl, by decide, by decide, by decide, by omega, by omega, by omega, by omega⟩
  rw [if_neg (by omega), if_neg (by omega), if_neg hthree]
  by_cases hfour : n ≤ 0xF4
  · refine .inr (.inr (.inr (.inl ⟨by omega, hfour, ?_⟩)))
    by_cases hF0 : n = 0xF0
    · subst hF0
      exact ⟨0x90, 0xBF, rfl, by constructor <;> decide⟩
    by_cases hF4 : n = 0xF4
    · subst hF4
      exact ⟨0x80, 0x8F, rfl, by constructor <;> decide⟩
    rw [if_neg hF0, if_pos (by omega)]
    exact ⟨0x80, 0xBF, rfl, by decide, by decide, by decide, by omega, by omega, by omega, by omega⟩
  · rw [if_neg (by omega), if_neg (by omega), if_neg (by omega)]
    simp

theorem toNat_ofNat_of_valid {v : Nat} (h : v.isValidChar) : (Char.ofNat v).val.toNat = v := by
  unfold Char.ofNat
  rw [dif_pos h]
  rfl

theorem utf8EncodeChar_ofNat {v : Nat} (h : v.isValidChar) :
    String.utf8EncodeChar (Char.ofNat v) =
      if v ≤ 0x7F then [.ofNat v]
      else if v ≤ 0x7FF then [.ofNat (v / 64 % 32 + 192), .ofNat (v % 64 + 128)]
      else if v ≤ 0xFFFF then
        [.ofNat (v / 4096 % 16 + 224), .ofNat (v / 64 % 64 + 128), .ofNat (v % 64 + 128)]
      else
        [.ofNat (v / 262144 % 8 + 240), .ofNat (v / 4096 % 64 + 128), .ofNat (v / 64 % 64 + 128),
          .ofNat (v % 64 + 128)] := by
  unfold String.utf8EncodeChar
  rw [toNat_ofNat_of_valid h]

theorem ofNat_eq (byte : UInt8) {n : Nat} (h : n = byte.toNat) : UInt8.ofNat n = byte := by
  rw [h, UInt8.ofNat_toNat]

section Encoded

variable {b₀ b₁ b₂ b₃ : UInt8}

theorem utf8EncodeChar_of_two (h₀ : 0xC2 ≤ b₀.toNat) (h₀' : b₀.toNat < 0xE0)
    (h₁ : 0x80 ≤ b₁.toNat) (h₁' : b₁.toNat ≤ 0xBF) :
    String.utf8EncodeChar (Char.ofNat (b₀.toNat % 0x20 * 0x40 + b₁.toNat % 0x40)) = [b₀, b₁] := by
  rw [utf8EncodeChar_ofNat (.inl (by omega)), if_neg (by omega), if_pos (by omega),
    ofNat_eq b₀ (by omega), ofNat_eq b₁ (by omega)]

theorem utf8EncodeChar_of_three {low high : Nat} (h₀ : 0xE0 ≤ b₀.toNat) (h₀' : b₀.toNat < 0xF0)
    (hrange : SecondRange b₀.toNat low high) (h₁ : low ≤ b₁.toNat) (h₁' : b₁.toNat ≤ high)
    (h₂ : 0x80 ≤ b₂.toNat) (h₂' : b₂.toNat ≤ 0xBF) :
    String.utf8EncodeChar (Char.ofNat
      ((b₀.toNat % 0x10 * 0x40 + b₁.toNat % 0x40) * 0x40 + b₂.toNat % 0x40)) = [b₀, b₁, b₂] := by
  obtain ⟨-, hleast, hgreatest, hlow, hhigh, -, -⟩ := hrange
  have hvalid : ((b₀.toNat % 0x10 * 0x40 + b₁.toNat % 0x40) * 0x40 +
      b₂.toNat % 0x40).isValidChar := by
    unfold Nat.isValidChar
    omega
  rw [utf8EncodeChar_ofNat hvalid, if_neg (by omega), if_neg (by omega), if_pos (by omega),
    ofNat_eq b₀ (by omega), ofNat_eq b₁ (by omega),
    ofNat_eq b₂ (by omega)]

theorem utf8EncodeChar_of_four {low high : Nat} (h₀ : 0xF0 ≤ b₀.toNat) (h₀' : b₀.toNat ≤ 0xF4)
    (hrange : SecondRange b₀.toNat low high) (h₁ : low ≤ b₁.toNat) (h₁' : b₁.toNat ≤ high)
    (h₂ : 0x80 ≤ b₂.toNat) (h₂' : b₂.toNat ≤ 0xBF) (h₃ : 0x80 ≤ b₃.toNat)
    (h₃' : b₃.toNat ≤ 0xBF) :
    String.utf8EncodeChar (Char.ofNat (((b₀.toNat % 0x08 * 0x40 + b₁.toNat % 0x40) * 0x40 +
      b₂.toNat % 0x40) * 0x40 + b₃.toNat % 0x40)) = [b₀, b₁, b₂, b₃] := by
  obtain ⟨-, hleast, hgreatest, -, -, hlow, hhigh⟩ := hrange
  have hvalid : (((b₀.toNat % 0x08 * 0x40 + b₁.toNat % 0x40) * 0x40 + b₂.toNat % 0x40) * 0x40 +
      b₃.toNat % 0x40).isValidChar := by
    unfold Nat.isValidChar
    omega
  rw [utf8EncodeChar_ofNat hvalid, if_neg (by omega), if_neg (by omega), if_neg (by omega),
    ofNat_eq b₀ (by omega), ofNat_eq b₁ (by omega),
    ofNat_eq b₂ (by omega), ofNat_eq b₃ (by omega)]

end Encoded

/-- Bytes that are assembled to a character are those that it is written in. -/
theorem eq_utf8EncodeChar_of_assemble (h : assemble bytes = .complete c) :
    bytes = String.utf8EncodeChar c := by
  cases bytes with
  | nil => cases h
  | cons b₀ rest =>
    have hfeed : (Progress.start b₀).feed rest = .complete c := h
    rcases start_cases b₀ with ⟨hlt, hstart⟩ | ⟨hle, hlt, hstart⟩ |
      ⟨hle, hlt, low, high, hstart, hrange⟩ | ⟨hle, hlt, low, high, hstart, hrange⟩ | hstart
    · rw [hstart] at hfeed
      cases rest with
      | cons _ _ => cases hfeed
      | nil =>
        cases hfeed
        rw [utf8EncodeChar_ofNat (.inl (by omega)), if_pos (by omega), UInt8.ofNat_toNat]
    · rw [hstart] at hfeed
      obtain ⟨b₁, rest₁, rfl, h₁, h₁', hlast⟩ := feed_eq_complete hfeed
      obtain ⟨rfl, rfl⟩ := (if_pos (Nat.le_refl 1)).mp hlast
      exact (utf8EncodeChar_of_two hle hlt h₁ h₁').symm
    · rw [hstart] at hfeed
      obtain ⟨b₁, rest₁, rfl, h₁, h₁', hmore⟩ := feed_eq_complete hfeed
      obtain ⟨b₂, rest₂, rfl, h₂, h₂', hlast⟩ := feed_eq_complete hmore
      obtain ⟨rfl, rfl⟩ := (if_pos (Nat.le_refl 1)).mp hlast
      exact (utf8EncodeChar_of_three hle hlt hrange h₁ h₁' h₂ h₂').symm
    · rw [hstart] at hfeed
      obtain ⟨b₁, rest₁, rfl, h₁, h₁', hmore⟩ := feed_eq_complete hfeed
      obtain ⟨b₂, rest₂, rfl, h₂, h₂', hmore'⟩ := feed_eq_complete hmore
      obtain ⟨b₃, rest₃, rfl, h₃, h₃', hlast⟩ := feed_eq_complete hmore'
      obtain ⟨rfl, rfl⟩ := (if_pos (Nat.le_refl 1)).mp hlast
      exact (utf8EncodeChar_of_four hle hlt hrange h₁ h₁' h₂ h₂' h₃ h₃').symm
    · rw [hstart, feed_invalid] at hfeed
      cases hfeed

/-- Whether bytes go together: there is a character whose bytes begin with them. -/
def Within (bytes : List UInt8) : Prop := ∃ c, bytes <+: String.utf8EncodeChar c

theorem accept_low (h : p.low ≤ p.high) : p.accept p.low =
    if p.missing ≤ 1 then .complete (Char.ofNat (p.payload * 0x40 + p.low.toNat % 0x40))
    else .pending ⟨p.payload * 0x40 + p.low.toNat % 0x40, p.missing - 1, 0x80, 0xBF⟩ :=
  if_pos ⟨UInt8.le_refl _, h⟩

/-- A character that misses bytes can be completed, if there are bytes in the range that the next
one is asked to be in. -/
theorem exists_feed_eq_complete (h : p.low ≤ p.high) :
    ∃ rest c, (Progress.pending p).feed rest = .complete c := by
  generalize hmissing : p.missing = missing
  induction missing generalizing p with
  | zero =>
    refine ⟨[p.low], _, (accept_low h).trans (if_pos ?_)⟩
    omega
  | succ missing ih =>
    by_cases hlast : p.missing ≤ 1
    · exact ⟨[p.low], _, (accept_low h).trans (if_pos hlast)⟩
    · let next : Pending := ⟨p.payload * 0x40 + p.low.toNat % 0x40, p.missing - 1, 0x80, 0xBF⟩
      have hnext : next.missing = missing := Nat.sub_eq_of_eq_add hmissing
      obtain ⟨rest, c, hrest⟩ := ih (p := next) (show (0x80 : UInt8) ≤ 0xBF by decide) hnext
      refine ⟨p.low :: rest, c, ?_⟩
      show (p.accept p.low).feed rest = _
      rw [accept_low h, if_neg hlast, hrest]

theorem low_le_high_of_start {byte : UInt8} (h : Progress.start byte = .pending p) :
    p.low ≤ p.high := by
  rcases start_cases byte with ⟨-, hstart⟩ | ⟨-, -, hstart⟩ | ⟨-, -, low, high, hstart, hrange⟩ |
    ⟨-, -, low, high, hstart, hrange⟩ | hstart
  all_goals cases hstart.symm.trans h
  · show (0x80 : UInt8) ≤ 0xBF
    decide
  · exact UInt8.le_iff_toNat_le.2 hrange.le
  · exact UInt8.le_iff_toNat_le.2 hrange.le

theorem low_le_high_of_accept {q : Pending} {byte : UInt8} (h : p.accept byte = .pending q) :
    q.low ≤ q.high := by
  unfold Pending.accept at h
  split at h
  · dsimp only at h
    split at h
    · cases h
    · cases h
      show (0x80 : UInt8) ≤ 0xBF
      decide
  · cases h

/-- There is always a byte in the range that the next one is asked to be in. -/
theorem low_le_high_of_feed {progress : Progress} {q : Pending}
    (hprogress : ∀ p, progress = .pending p → p.low ≤ p.high)
    (h : progress.feed bytes = .pending q) : q.low ≤ q.high := by
  induction bytes generalizing progress with
  | nil =>
    rw [Progress.feed] at h
    exact hprogress q h
  | cons byte bytes ih =>
    cases progress with
    | complete c => cases h
    | invalid => cases h
    | pending p => exact ih (fun _ => low_le_high_of_accept) h

/-- Bytes that are assembled to a part of a character are the first ones of a character. -/
theorem within_of_pending (h : assemble bytes = .pending p) :
    Within bytes ∧ ∀ c, bytes ≠ String.utf8EncodeChar c := by
  cases bytes with
  | nil => cases h
  | cons byte bytes =>
    have hrange := low_le_high_of_feed (fun _ => low_le_high_of_start) h
    obtain ⟨rest, c, hrest⟩ := exists_feed_eq_complete hrange
    have hwhole : assemble (byte :: bytes ++ rest) = .complete c := by
      rw [assemble_append (List.cons_ne_nil _ _), h, hrest]
    refine ⟨⟨c, rest, eq_utf8EncodeChar_of_assemble hwhole⟩, fun c' heq => ?_⟩
    have hcomplete := assemble_utf8EncodeChar c'
    rw [← heq, h] at hcomplete
    cases hcomplete

/-- Bytes do not go together if and only if they are assembled to nothing. -/
theorem not_within_iff (hne : bytes ≠ []) : ¬Within bytes ↔ assemble bytes = .invalid := by
  constructor
  · intro hnot
    cases h : assemble bytes with
    | invalid => rfl
    | pending p => exact absurd (within_of_pending h).1 hnot
    | complete c =>
      exact absurd ⟨c, [], by rw [List.append_nil, eq_utf8EncodeChar_of_assemble h]⟩ hnot
  · rintro hinvalid ⟨c, rest, hrest⟩
    have hcomplete := assemble_utf8EncodeChar c
    rw [← hrest, assemble_append hne, hinvalid, feed_invalid] at hcomplete
    cases hcomplete

/-- The text that bytes are read as, piece by piece. -/
inductive ReadAs : List UInt8 → List Char → Prop
  | nil : ReadAs [] []
  | character (c : Char) {bytes : List UInt8} {text : List Char} (h : ReadAs bytes text) :
      ReadAs (String.utf8EncodeChar c ++ bytes) (c :: text)
  | cut {start bytes : List UInt8} {text : List Char} (hne : start ≠ []) (hstart : Within start)
      (hpart : ∀ c, start ≠ String.utf8EncodeChar c)
      (hends : ∀ byte ∈ bytes.head?, ¬Within (start ++ [byte])) (h : ReadAs bytes text) :
      ReadAs (start ++ bytes) (replacement :: text)
  | stray {byte : UInt8} {bytes : List UInt8} {text : List Char} (hbyte : ¬Within [byte])
      (h : ReadAs bytes text) : ReadAs (byte :: bytes) (replacement :: text)

/-- What is shown in the end of a decoder that reads bytes is a text that they are read as, behind
the text that was there and together with the bytes of a character that it has read a part of. -/
theorem exists_readAs (bytes : List UInt8) :
    (∀ text, ∃ read, (bytes.foldl Decoder.step ⟨text, none⟩).finish.toList = text.toList ++ read ∧
      ReadAs bytes read) ∧
    ∀ text start p, assemble start = .pending p →
      ∃ read, (bytes.foldl Decoder.step ⟨text, some p⟩).finish.toList = text.toList ++ read ∧
        ReadAs (start ++ bytes) read := by
  induction bytes with
  | nil =>
    refine ⟨fun text => ⟨[], (List.append_nil _).symm, .nil⟩, fun text start p hstart => ?_⟩
    obtain ⟨hwithin, hpart⟩ := within_of_pending hstart
    have hne : start ≠ [] := by
      rintro rfl
      cases hstart
    exact ⟨[replacement], String.toList_push _, .cut hne hwithin hpart (by simp) .nil⟩
  | cons byte bytes ih =>
    obtain ⟨ihnone, ihsome⟩ := ih
    have hnone (text : String) : ∃ read,
        ((byte :: bytes).foldl Decoder.step ⟨text, none⟩).finish.toList = text.toList ++ read ∧
          ReadAs (byte :: bytes) read := by
      have hstep : Decoder.step ⟨text, none⟩ byte = .of text (assemble [byte]) :=
        step_none text byte
      rw [List.foldl_cons, hstep]
      cases hbyte : assemble [byte] with
      | complete c =>
        obtain ⟨read, htext, hread⟩ := ihnone (text.push c)
        rw [String.toList_push, List.append_assoc] at htext
        refine ⟨c :: read, htext, ?_⟩
        have hchar := ReadAs.character c hread
        rwa [← eq_utf8EncodeChar_of_assemble hbyte] at hchar
      | pending p => exact ihsome text [byte] p hbyte
      | invalid =>
        obtain ⟨read, htext, hread⟩ := ihnone (text.push replacement)
        rw [String.toList_push, List.append_assoc] at htext
        exact ⟨replacement :: read, htext,
          .stray ((not_within_iff (List.cons_ne_nil _ _)).2 hbyte) hread⟩
    refine ⟨hnone, fun text start p hstart => ?_⟩
    obtain ⟨hwithin, hpart⟩ := within_of_pending hstart
    have hne : start ≠ [] := by
      rintro rfl
      cases hstart
    have hnext : assemble (start ++ [byte]) = p.accept byte := by
      rw [assemble_append hne, hstart]
      show (p.accept byte).feed [] = _
      rw [Progress.feed]
    have hjoin : start ++ byte :: bytes = start ++ [byte] ++ bytes := by simp
    cases haccept : p.accept byte with
    | complete c =>
      obtain ⟨read, htext, hread⟩ := ihnone (text.push c)
      rw [String.toList_push, List.append_assoc] at htext
      have hchar := ReadAs.character c hread
      rw [← eq_utf8EncodeChar_of_assemble (hnext.trans haccept), ← hjoin] at hchar
      refine ⟨c :: read, ?_, hchar⟩
      rw [List.foldl_cons, step_some text (by simp [haccept]), haccept]
      exact htext
    | pending q =>
      obtain ⟨read, htext, hread⟩ := ihsome text (start ++ [byte]) q (hnext.trans haccept)
      refine ⟨read, ?_, hjoin ▸ hread⟩
      rw [List.foldl_cons, step_some text (by simp [haccept]), haccept]
      exact htext
    | invalid =>
      -- the byte is read again as the first one of a character
      obtain ⟨read, htext, hread⟩ := hnone (text.push replacement)
      rw [String.toList_push, List.append_assoc] at htext
      refine ⟨replacement :: read, ?_, .cut hne hwithin hpart (fun b hb => ?_) hread⟩
      · rw [List.foldl_cons, step_invalid text haccept]
        exact htext
      · cases hb
        rw [not_within_iff (by simp), hnext, haccept]

/-- Bytes are read as one text only. -/
theorem foldl_of_readAs {read : List Char} (h : ReadAs bytes read) (text : String) :
    (bytes.foldl Decoder.step ⟨text, none⟩).finish.toList = text.toList ++ read := by
  induction h generalizing text with
  | nil => exact (List.append_nil _).symm
  | character c h ih =>
    rw [List.foldl_append, foldl_step_char, ih, String.toList_push, List.append_assoc]
    rfl
  | @cut start bytes read hne hstart hpart hends h ih =>
    have hvalid : assemble start ≠ .invalid := fun h => (not_within_iff hne).2 h hstart
    rw [List.foldl_append, foldl_step_assemble text hvalid]
    cases hassemble : assemble start with
    | invalid => exact absurd hassemble hvalid
    | complete c => exact absurd (eq_utf8EncodeChar_of_assemble hassemble) (hpart c)
    | pending p =>
      have hreplaced := ih (text.push replacement)
      rw [String.toList_push, List.append_assoc] at hreplaced
      show (bytes.foldl Decoder.step ⟨text, some p⟩).finish.toList = _
      cases bytes with
      | nil => exact hreplaced
      | cons byte bytes =>
        have hnot := hends byte rfl
        rw [not_within_iff (by simp), assemble_append hne, hassemble] at hnot
        have hbyte : p.accept byte = .invalid := by
          rw [← hnot]
          show _ = (p.accept byte).feed []
          rw [Progress.feed]
        rw [List.foldl_cons, step_invalid text hbyte]
        exact hreplaced
  | @stray byte bytes read hbyte h ih =>
    rw [not_within_iff (List.cons_ne_nil _ _)] at hbyte
    have hstep : Decoder.step ⟨text, none⟩ byte = .of text (assemble [byte]) := step_none text byte
    rw [List.foldl_cons, hstep, hbyte]
    show (bytes.foldl Decoder.step ⟨text.push replacement, none⟩).finish.toList = _
    rw [ih, String.toList_push, List.append_assoc]
    rfl

/-- The text of any bytes is the one that they are read as piece by piece. -/
theorem lossy_eq_iff {text : String} : lossy bytes = text ↔ ReadAs bytes text.toList := by
  constructor
  · rintro rfl
    obtain ⟨read, htext, hread⟩ := (exists_readAs bytes).1 ""
    rw [String.toList_empty, List.nil_append] at htext
    rw [← htext] at hread
    exact hread
  · intro h
    rw [← String.toList_inj]
    exact foldl_of_readAs h ""

-- The first two bytes are a character cut short, and the last one starts no character.
example : lossy [0xE2, 0x82, 0x41, 0xFF] = "\uFFFDA\uFFFD" := by decide +kernel

end CommonTrace.Text
