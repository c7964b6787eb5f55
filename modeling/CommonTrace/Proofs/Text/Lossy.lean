import CommonTrace.Text.Lossy

/-!
# Text that is well formed

Nothing is lost of text that has been written as UTF-8: every character is read back from the one
to four bytes that it was written in, and none of these is zero unless the character is.
-/
namespace CommonTrace.Text

/-- The bytes of a text in UTF-8. -/
def utf8 (text : String) : List UInt8 := text.toList.flatMap String.utf8EncodeChar

theorem toList_toByteArray (text : String) : text.toByteArray.data.toList = utf8 text := by
  rw [← String.utf8Encode_toList, List.utf8Encode, List.data_toByteArray]
  rfl

variable {n : Nat}

/-- What the first byte of a character is, by its number. -/
theorem start_ofNat (h : n < 256) :
    Progress.start (UInt8.ofNat n) =
      if n < 0x80 then .complete (Char.ofNat n)
      else if n < 0xC2 then .invalid
      else if n < 0xE0 then .pending ⟨n % 0x20, 1, 0x80, 0xBF⟩
      else if n = 0xE0 then .pending ⟨0, 2, 0xA0, 0xBF⟩
      else if n = 0xED then .pending ⟨0x0D, 2, 0x80, 0x9F⟩
      else if n < 0xF0 then .pending ⟨n % 0x10, 2, 0x80, 0xBF⟩
      else if n = 0xF0 then .pending ⟨0, 3, 0x90, 0xBF⟩
      else if n < 0xF4 then .pending ⟨n % 0x08, 3, 0x80, 0xBF⟩
      else if n = 0xF4 then .pending ⟨4, 3, 0x80, 0x8F⟩
      else .invalid := by
  have hnumber : (UInt8.ofNat n).toNat = n := UInt8.toNat_ofNat_of_lt' h
  unfold Progress.start
  simp only [UInt8.lt_iff_toNat_lt, ← UInt8.toNat_inj, hnumber]
  rfl

/-- What a further byte does, by its number. -/
theorem accept_ofNat (p : Pending) (h : n < 256) :
    p.accept (UInt8.ofNat n) =
      if p.low.toNat ≤ n ∧ n ≤ p.high.toNat then
        if p.missing ≤ 1 then .complete (Char.ofNat (p.payload * 0x40 + n % 0x40))
        else .pending ⟨p.payload * 0x40 + n % 0x40, p.missing - 1, 0x80, 0xBF⟩
      else .invalid := by
  have hnumber : (UInt8.ofNat n).toNat = n := UInt8.toNat_ofNat_of_lt' h
  unfold Pending.accept
  simp only [UInt8.le_iff_toNat_le, hnumber]

/-- A byte in the range that is asked for goes on with a character. -/
theorem accept_of_pending {payload missing : Nat} {low high : UInt8} (h : n < 256)
    (hlow : low.toNat ≤ n) (hhigh : n ≤ high.toNat) (hmissing : 1 < missing) :
    (⟨payload, missing, low, high⟩ : Pending).accept (UInt8.ofNat n) =
      .pending ⟨payload * 0x40 + n % 0x40, missing - 1, 0x80, 0xBF⟩ := by
  rw [accept_ofNat _ h, if_pos ⟨hlow, hhigh⟩, if_neg (Nat.not_le.2 hmissing)]

/-- The last byte that is asked for completes a character. -/
theorem accept_of_last {payload : Nat} {low high : UInt8} (h : n < 256)
    (hlow : low.toNat ≤ n) (hhigh : n ≤ high.toNat) :
    (⟨payload, 1, low, high⟩ : Pending).accept (UInt8.ofNat n) =
      .complete (Char.ofNat (payload * 0x40 + n % 0x40)) := by
  rw [accept_ofNat _ h, if_pos ⟨hlow, hhigh⟩, if_pos (Nat.le_refl 1)]

/-- The first of three bytes, and the range it asks the second one to be in. -/
theorem start_of_three {v : Nat} (hlarge : 0x7FF < v) (hsmall : v ≤ 0xFFFF)
    (hvalid : v < 0xD800 ∨ 0xDFFF < v) :
    ∃ low high, Progress.start (UInt8.ofNat (v / 4096 % 16 + 224)) =
        .pending ⟨v / 4096, 2, low, high⟩ ∧
      low.toNat ≤ v / 64 % 64 + 128 ∧ v / 64 % 64 + 128 ≤ high.toNat := by
  rw [start_ofNat (by omega), if_neg (by omega), if_neg (by omega), if_neg (by omega)]
  split
  next hfirst =>
    refine ⟨0xA0, 0xBF, ?_, ?_, ?_⟩
    · rw [show v / 4096 = 0 by omega]
    · show 160 ≤ _
      omega
    · show _ ≤ 191
      omega
  · split
    next hsurrogate =>
      refine ⟨0x80, 0x9F, ?_, ?_, ?_⟩
      · rw [show v / 4096 = 0x0D by omega]
      · show 128 ≤ _
        omega
      · show _ ≤ 159
        omega
    · refine ⟨0x80, 0xBF, ?_, ?_, ?_⟩
      · rw [if_pos (by omega)]
        congr 2
        omega
      · show 128 ≤ _
        omega
      · show _ ≤ 191
        omega

/-- The first of four bytes, and the range it asks the second one to be in. -/
theorem start_of_four {v : Nat} (hlarge : 0xFFFF < v) (hsmall : v < 0x110000) :
    ∃ low high, Progress.start (UInt8.ofNat (v / 262144 % 8 + 240)) =
        .pending ⟨v / 262144, 3, low, high⟩ ∧
      low.toNat ≤ v / 4096 % 64 + 128 ∧ v / 4096 % 64 + 128 ≤ high.toNat := by
  rw [start_ofNat (by omega), if_neg (by omega), if_neg (by omega), if_neg (by omega),
    if_neg (by omega), if_neg (by omega), if_neg (by omega)]
  split
  next hfirst =>
    refine ⟨0x90, 0xBF, ?_, ?_, ?_⟩
    · rw [show v / 262144 = 0 by omega]
    · show 144 ≤ _
      omega
    · show _ ≤ 191
      omega
  · split
    · refine ⟨0x80, 0xBF, ?_, ?_, ?_⟩
      · congr 2
        omega
      · show 128 ≤ _
        omega
      · show _ ≤ 191
        omega
    · refine ⟨0x80, 0x8F, ?_, ?_, ?_⟩
      · rw [if_pos (by omega), show v / 262144 = 4 by omega]
      · show 128 ≤ _
        omega
      · show _ ≤ 143
        omega

/-- What further bytes do to a character being assembled. Nothing goes on with a complete one. -/
def Progress.feed : Progress → List UInt8 → Progress
  | progress, [] => progress
  | .pending p, byte :: rest => (p.accept byte).feed rest
  | _, _ :: _ => .invalid

/-- What bytes are assembled to, the first of which begins a character. -/
def assemble : List UInt8 → Progress
  | [] => .invalid
  | byte :: rest => (Progress.start byte).feed rest

/-- The decoder after a text and what has been assembled behind it. -/
def Decoder.of (text : String) : Progress → Decoder
  | .complete c => ⟨text.push c, none⟩
  | .pending p => ⟨text, some p⟩
  | .invalid => ⟨text.push replacement, none⟩

theorem step_none (text : String) (byte : UInt8) :
    Decoder.step ⟨text, none⟩ byte = .of text (Progress.start byte) := by
  show Decoder.restart text byte = _
  unfold Decoder.restart
  cases Progress.start byte <;> rfl

theorem step_some {p : Pending} {byte : UInt8} (text : String) (h : p.accept byte ≠ .invalid) :
    Decoder.step ⟨text, some p⟩ byte = .of text (p.accept byte) := by
  unfold Decoder.step
  dsimp only
  cases haccept : p.accept byte with
  | complete c => rfl
  | pending q => rfl
  | invalid => exact absurd haccept h

/-- A byte that does not go on with a character is read once more behind a replacement for it. -/
theorem step_invalid {p : Pending} {byte : UInt8} (text : String) (h : p.accept byte = .invalid) :
    Decoder.step ⟨text, some p⟩ byte = Decoder.step ⟨text.push replacement, none⟩ byte := by
  unfold Decoder.step
  dsimp only
  rw [h]

theorem feed_invalid (bytes : List UInt8) : Progress.invalid.feed bytes = .invalid := by
  cases bytes <;> rfl

theorem foldl_step_of {bytes : List UInt8} {progress : Progress} (text : String)
    (h : progress.feed bytes ≠ .invalid) :
    bytes.foldl Decoder.step (.of text progress) = .of text (progress.feed bytes) := by
  induction bytes generalizing progress with
  | nil => rfl
  | cons byte bytes ih =>
    cases progress with
    | complete c => exact absurd rfl h
    | invalid => exact absurd rfl h
    | pending p =>
      have hvalid : p.accept byte ≠ .invalid := by
        intro hinvalid
        apply h
        show (p.accept byte).feed bytes = .invalid
        rw [hinvalid, feed_invalid]
      have hstep : Decoder.step (.of text (.pending p)) byte = .of text (p.accept byte) :=
        step_some text hvalid
      rw [List.foldl_cons, hstep]
      exact ih h

/-- Bytes that belong to one character are read as what they are assembled to. -/
theorem foldl_step_assemble {bytes : List UInt8} (text : String) (h : assemble bytes ≠ .invalid) :
    bytes.foldl Decoder.step ⟨text, none⟩ = .of text (assemble bytes) := by
  cases bytes with
  | nil => exact absurd rfl h
  | cons byte bytes =>
    rw [List.foldl_cons, step_none]
    exact foldl_step_of text h

/-- A character is assembled from the bytes that it is written in. -/
theorem assemble_utf8EncodeChar (c : Char) : assemble (String.utf8EncodeChar c) = .complete c := by
  have hvalid : c.val.toNat < 0xD800 ∨ 0xDFFF < c.val.toNat ∧ c.val.toNat < 0x110000 := c.valid
  have hchar : Char.ofNat c.val.toNat = c := Char.ofNat_toNat c
  unfold String.utf8EncodeChar
  extract_lets v
  replace hvalid : v < 0xD800 ∨ 0xDFFF < v ∧ v < 0x110000 := hvalid
  replace hchar : Char.ofNat v = c := hchar
  clear_value v
  subst hchar
  split
  next hone =>
    have hstart : Progress.start (UInt8.ofNat v) = .complete (Char.ofNat v) := by
      rw [start_ofNat (by omega), if_pos (by omega)]
    rw [assemble, hstart]
    rfl
  · split
    next htwo =>
      have hstart : Progress.start (UInt8.ofNat (v / 64 % 32 + 192)) =
          .pending ⟨v / 64, 1, 0x80, 0xBF⟩ := by
        rw [start_ofNat (by omega), if_neg (by omega), if_neg (by omega), if_pos (by omega)]
        congr 2
        omega
      rw [assemble, hstart, Progress.feed,
        accept_of_last (by omega) (by show 128 ≤ _; omega) (by show _ ≤ 191; omega)]
      rw [show v / 64 * 0x40 + (v % 64 + 128) % 0x40 = v by omega]
      rfl
    · split
      next hthree =>
        obtain ⟨low, high, hstart, hlow, hhigh⟩ :=
          start_of_three (by omega) (by omega) (hvalid.imp_right (·.1))
        rw [assemble, hstart, Progress.feed, accept_of_pending (by omega) hlow hhigh (by omega),
          Progress.feed,
          accept_of_last (by omega) (by show 128 ≤ _; omega) (by show _ ≤ 191; omega)]
        rw [show (v / 4096 * 0x40 + (v / 64 % 64 + 128) % 0x40) * 0x40 +
          (v % 64 + 128) % 0x40 = v by omega]
        rfl
      next hfour =>
        obtain ⟨low, high, hstart, hlow, hhigh⟩ :=
          @start_of_four v (by omega) (by omega)
        rw [assemble, hstart, Progress.feed, accept_of_pending (by omega) hlow hhigh (by omega),
          Progress.feed, accept_of_pending (by omega) (by show 128 ≤ _; omega)
            (by show _ ≤ 191; omega) (by omega), Progress.feed,
          accept_of_last (by omega) (by show 128 ≤ _; omega) (by show _ ≤ 191; omega)]
        rw [show ((v / 262144 * 0x40 + (v / 4096 % 64 + 128) % 0x40) * 0x40 +
          (v / 64 % 64 + 128) % 0x40) * 0x40 + (v % 64 + 128) % 0x40 = v by omega]
        rfl

/-- A character is read back from the bytes that it is written in. -/
theorem foldl_step_char (text : String) (c : Char) :
    (String.utf8EncodeChar c).foldl Decoder.step ⟨text, none⟩ = ⟨text.push c, none⟩ := by
  have hassemble := assemble_utf8EncodeChar c
  rw [foldl_step_assemble text (by rw [hassemble]; nofun), hassemble]
  rfl

/-- Text is read back from the bytes that it is written in. -/
theorem lossy_utf8 (text : String) : lossy (utf8 text) = text := by
  have hfold (characters : List Char) (before : String) :
      (characters.flatMap String.utf8EncodeChar).foldl Decoder.step ⟨before, none⟩ =
        ⟨characters.foldl String.push before, none⟩ := by
    induction characters generalizing before with
    | nil => rfl
    | cons c rest ih =>
      rw [List.flatMap_cons, List.foldl_append, foldl_step_char, ih, List.foldl_cons]
  have htext (characters : List Char) (before : String) :
      (characters.foldl String.push before).toList = before.toList ++ characters := by
    induction characters generalizing before with
    | nil => simp
    | cons c rest ih => simp [ih]
  unfold lossy utf8
  rw [hfold]
  show text.toList.foldl String.push "" = text
  rw [← String.toList_inj, htext]
  rfl

/-- The bytes of a text without the character zero are not zero. -/
theorem ne_zero_of_mem_utf8 {text : String} (h : '\x00' ∉ text.toList) {byte : UInt8}
    (hmem : byte ∈ utf8 text) : byte ≠ 0 := by
  obtain ⟨c, hc, hbyte⟩ := List.mem_flatMap.1 hmem
  have hzero : c.val.toNat ≠ 0 := by
    intro hzero
    have hnul : c = '\x00' := Char.ext (UInt32.toNat_inj.1 hzero)
    exact h (hnul ▸ hc)
  have hvalid : c.val.toNat < 0xD800 ∨ 0xDFFF < c.val.toNat ∧ c.val.toNat < 0x110000 := c.valid
  have hbound : ∃ n, n < 256 ∧ n ≠ 0 ∧ byte = UInt8.ofNat n := by
    unfold String.utf8EncodeChar at hbyte
    extract_lets v at hbyte
    replace hvalid : v < 0xD800 ∨ 0xDFFF < v ∧ v < 0x110000 := hvalid
    replace hzero : v ≠ 0 := hzero
    clear_value v
    split at hbyte
    · exact ⟨v, by omega, hzero, List.mem_singleton.1 hbyte⟩
    · split at hbyte
      · simp only [List.mem_cons, List.not_mem_nil, or_false] at hbyte
        rcases hbyte with rfl | rfl
        · exact ⟨_, by omega, by omega, rfl⟩
        · exact ⟨_, by omega, by omega, rfl⟩
      · split at hbyte
        · simp only [List.mem_cons, List.not_mem_nil, or_false] at hbyte
          rcases hbyte with rfl | rfl | rfl
          · exact ⟨_, by omega, by omega, rfl⟩
          · exact ⟨_, by omega, by omega, rfl⟩
          · exact ⟨_, by omega, by omega, rfl⟩
        · simp only [List.mem_cons, List.not_mem_nil, or_false] at hbyte
          rcases hbyte with rfl | rfl | rfl | rfl
          · exact ⟨_, by omega, by omega, rfl⟩
          · exact ⟨_, by omega, by omega, rfl⟩
          · exact ⟨_, by omega, by omega, rfl⟩
          · exact ⟨_, by omega, by omega, rfl⟩
  obtain ⟨n, hlt, hne, rfl⟩ := hbound
  intro heq
  have hnumber : (UInt8.ofNat n).toNat = n := UInt8.toNat_ofNat_of_lt' hlt
  rw [heq] at hnumber
  exact hne hnumber.symm

end CommonTrace.Text
