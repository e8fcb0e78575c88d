import Mathlib.Data.List.DropRight

/-!
# Text read from bytes that need not be UTF-8

A byte that cannot continue the character before it ends that character, which
is replaced as a whole.  Since a newline never continues a character, a line has
the same text with its newline and without.
-/

namespace Zaowutai.Lib

def replacementChar : Char := '\uFFFD'

/-- A character of which more bytes are to come, the next one within bounds that leave only
continuation bytes. -/
structure PartialChar where
  value : Nat
  missing : Nat
  lower : UInt8
  upper : UInt8
  continues : 0x80 ≤ lower
  deriving DecidableEq, Repr

theorem continues_80 : (0x80 : UInt8) ≤ 0x80 := by decide

theorem continues_90 : (0x80 : UInt8) ≤ 0x90 := by decide

theorem continues_a0 : (0x80 : UInt8) ≤ 0xA0 := by decide

def firstByte (b : UInt8) : Char ⊕ PartialChar :=
  if b < 0x80 then .inl (Char.ofNat b.toNat)
  else if b < 0xC2 then .inl replacementChar
  else if b < 0xE0 then .inr ⟨b.toNat - 0xC0, 1, 0x80, 0xBF, continues_80⟩
  else if b = 0xE0 then .inr ⟨0, 2, 0xA0, 0xBF, continues_a0⟩
  else if b = 0xED then .inr ⟨0xD, 2, 0x80, 0x9F, continues_80⟩
  else if b < 0xF0 then .inr ⟨b.toNat - 0xE0, 2, 0x80, 0xBF, continues_80⟩
  else if b = 0xF0 then .inr ⟨0, 3, 0x90, 0xBF, continues_90⟩
  else if b < 0xF4 then .inr ⟨b.toNat - 0xF0, 3, 0x80, 0xBF, continues_80⟩
  else if b = 0xF4 then .inr ⟨4, 3, 0x80, 0x8F, continues_80⟩
  else .inl replacementChar

/-- The text of the bytes that follow what has been read of a character. -/
def lossyFrom : Option PartialChar → List UInt8 → List Char
  | none, [] => []
  | some _, [] => [replacementChar]
  | none, b :: bytes =>
      match firstByte b with
      | .inl c => c :: lossyFrom none bytes
      | .inr p => lossyFrom (some p) bytes
  | some p, b :: bytes =>
      if p.lower ≤ b ∧ b ≤ p.upper then
        let value := p.value * 64 + (b.toNat - 0x80)
        if p.missing ≤ 1 then Char.ofNat value :: lossyFrom none bytes
        else lossyFrom (some ⟨value, p.missing - 1, 0x80, 0xBF, continues_80⟩) bytes
      else
        match firstByte b with
        | .inl c => replacementChar :: c :: lossyFrom none bytes
        | .inr p => replacementChar :: lossyFrom (some p) bytes

/-- Bytes as text, where each longest beginning of a character that is cut short is replaced. -/
def fromUtf8Lossy (bytes : List UInt8) : List Char := lossyFrom none bytes

/-- Characters with the Unicode property White_Space. -/
def isWhitespace (c : Char) : Bool :=
  let n := c.toNat
  (0x9 ≤ n && n ≤ 0xD) || n == 0x20 || n == 0x85 || n == 0xA0 || n == 0x1680 ||
    (0x2000 ≤ n && n ≤ 0x200A) || n == 0x2028 || n == 0x2029 || n == 0x202F || n == 0x205F ||
    n == 0x3000

def trim (text : List Char) : List Char := (text.dropWhile isWhitespace).rdropWhile isWhitespace

theorem trim_eq_self {text : List Char} (hfirst : ∀ c ∈ text.head?, isWhitespace c = false)
    (hlast : ∀ c ∈ text.getLast?, isWhitespace c = false) : trim text = text := by
  have hstart : text.dropWhile isWhitespace = text := by
    cases text with
    | nil => rfl
    | cons c text => exact List.dropWhile_cons_of_neg (by simp [hfirst c rfl])
  rw [trim, hstart, List.rdropWhile_eq_self_iff]
  intro hne
  rw [hlast _ (List.getLast?_eq_some_getLast hne)]
  exact Bool.false_ne_true

theorem trim_trim (text : List Char) : trim (trim text) = trim text := by
  apply trim_eq_self
  · intro c hc
    obtain ⟨rest, hrest⟩ : trim text <+: text.dropWhile isWhitespace :=
      List.rdropWhile_prefix isWhitespace _
    have hhead : c ∈ (text.dropWhile isWhitespace).head? := by
      rw [← hrest]
      exact List.mem_head?_append_of_mem_head? hc
    have hnot := List.head?_dropWhile_not isWhitespace text
    rw [Option.mem_def.mp hhead] at hnot
    exact hnot
  · intro c hc
    have hne : trim text ≠ [] := by
      intro h
      rw [h] at hc
      cases hc
    have hlast := List.rdropWhile_last_not (p := isWhitespace) (text.dropWhile isWhitespace) hne
    rw [List.getLast?_eq_some_getLast hne, Option.mem_def, Option.some_inj] at hc
    rw [← hc]
    exact Bool.eq_false_iff.mpr hlast
def lineText (bytes : List UInt8) : String := String.ofList (trim (fromUtf8Lossy bytes))

def newline : UInt8 := 0x0A

theorem firstByte_newline : firstByte newline = .inl '\n' := by decide

theorem lossyFrom_newline (p : Option PartialChar) (bytes : List UInt8) :
    lossyFrom p (bytes ++ [newline]) = lossyFrom p bytes ++ ['\n'] := by
  induction bytes generalizing p with
  | nil =>
      cases p with
      | none => rfl
      | some p =>
          have hout : ¬ (p.lower ≤ newline ∧ newline ≤ p.upper) := by
            intro hin
            exact absurd (UInt8.le_trans p.continues hin.1) (by decide)
          simp only [List.nil_append, lossyFrom, if_neg hout, firstByte_newline, List.cons_append]
  | cons b bytes ih =>
      cases p with
      | none =>
          rw [List.cons_append, lossyFrom, lossyFrom]
          cases firstByte b with
          | inl c => simp only [ih, List.cons_append]
          | inr q => simp only [ih]
      | some p =>
          rw [List.cons_append, lossyFrom, lossyFrom]
          by_cases hin : p.lower ≤ b ∧ b ≤ p.upper
          · rw [if_pos hin, if_pos hin]
            split
            · rw [ih, List.cons_append]
            · rw [ih]
          · rw [if_neg hin, if_neg hin]
            cases firstByte b with
            | inl c => simp only [ih, List.cons_append]
            | inr q => simp only [ih, List.cons_append]

theorem fromUtf8Lossy_newline (bytes : List UInt8) :
    fromUtf8Lossy (bytes ++ [newline]) = fromUtf8Lossy bytes ++ ['\n'] :=
  lossyFrom_newline none bytes

/-- A character that the newline cuts short is replaced. -/
example : fromUtf8Lossy [0xE4, 0xB8, 0xAD, 0xE4, 0xB8, newline] = ['中', replacementChar, '\n'] := by
  decide

theorem trim_append_whitespace {c : Char} (hc : isWhitespace c = true) (text : List Char) :
    trim (text ++ [c]) = trim text := by
  rw [trim, trim, List.dropWhile_append]
  split
  · next hall =>
      rw [List.isEmpty_iff.mp hall, List.dropWhile_cons_of_pos hc, List.dropWhile_nil]
  · exact List.rdropWhile_concat_pos isWhitespace _ _ hc

theorem lineText_newline (bytes : List UInt8) :
    lineText (bytes ++ [newline]) = lineText bytes := by
  rw [lineText, fromUtf8Lossy_newline, trim_append_whitespace (by decide), lineText]

end Zaowutai.Lib
