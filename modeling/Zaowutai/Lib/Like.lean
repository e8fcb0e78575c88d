import Mathlib

/-!
# Patterns of the LIKE operator

In a pattern `%` stands for any text and `_` for any character, and a character
behind a backslash stands for itself.  Letters match whatever their ASCII case.
-/

namespace Zaowutai.Lib

inductive LikeItem
  | anyText
  | anyChar
  | char (c : Char)
  /-- A backslash with nothing behind it, which matches nothing. -/
  | dangling
  deriving DecidableEq, Repr

def likeItems : List Char → List LikeItem
  | [] => []
  | '%' :: pattern => .anyText :: likeItems pattern
  | '_' :: pattern => .anyChar :: likeItems pattern
  | '\\' :: c :: pattern => .char c :: likeItems pattern
  | ['\\'] => [.dangling]
  | c :: pattern => .char c :: likeItems pattern

def itemsMatch : List LikeItem → List Char → Bool
  | [], text => text.isEmpty
  | .anyText :: items, text => text.tails.any (itemsMatch items)
  | .anyChar :: items, text => text.tail?.any (itemsMatch items)
  | .char c :: items, text => text.head?.any (·.toLower = c.toLower) && itemsMatch items text.tail
  | .dangling :: _, _ => false

def like (pattern text : List Char) : Bool := itemsMatch (likeItems pattern) text

def asciiLower (text : List Char) : List Char := text.map Char.toLower

theorem asciiLower_asciiLower (text : List Char) :
    asciiLower (asciiLower text) = asciiLower text := by
  rw [asciiLower, asciiLower, List.map_map]
  exact List.map_congr_left fun c _ ↦ c.toLower_toLower_eq_toLower

theorem itemsMatch_chars (term : List Char) (items : List LikeItem) (text : List Char) :
    itemsMatch (term.map .char ++ items) text = true ↔
      ∃ start rest, text = start ++ rest ∧ asciiLower start = asciiLower term ∧
        itemsMatch items rest = true := by
  induction term generalizing text with
  | nil =>
      simp only [List.map_nil, List.nil_append, asciiLower, List.map_eq_nil_iff]
      constructor
      · intro h
        exact ⟨[], text, rfl, rfl, h⟩
      · rintro ⟨start, rest, rfl, rfl, h⟩
        exact h
  | cons c term ih =>
      rw [List.map_cons, List.cons_append, itemsMatch, Bool.and_eq_true, ih]
      constructor
      · rintro ⟨hhead, start, rest, htail, hstart, hrest⟩
        cases text with
        | nil => cases hhead
        | cons d text =>
            have hd : d.toLower = c.toLower := of_decide_eq_true hhead
            refine ⟨d :: start, rest, congrArg (d :: ·) htail, ?_, hrest⟩
            simp only [asciiLower, List.map_cons, hd] at hstart ⊢
            rw [hstart]
      · rintro ⟨start, rest, rfl, hstart, hrest⟩
        cases start with
        | nil => cases hstart
        | cons d start =>
            obtain ⟨hd, hstart⟩ := List.cons_eq_cons.mp hstart
            exact ⟨decide_eq_true hd, start, rest, rfl, hstart, hrest⟩

theorem itemsMatch_anyText (items : List LikeItem) (text : List Char) :
    itemsMatch (.anyText :: items) text = true ↔ ∃ rest, rest <:+ text ∧ itemsMatch items rest := by
  simp only [itemsMatch, List.any_eq_true, List.mem_tails]

theorem itemsMatch_all (text : List Char) : itemsMatch [.anyText] text = true :=
  (itemsMatch_anyText [] text).mpr ⟨[], List.nil_suffix, rfl⟩

theorem itemsMatch_start (term text : List Char) :
    itemsMatch (term.map .char ++ [.anyText]) text = true ↔
      asciiLower term <+: asciiLower text := by
  rw [itemsMatch_chars]
  constructor
  · rintro ⟨start, rest, rfl, hstart, -⟩
    exact ⟨asciiLower rest, by rw [← hstart, asciiLower, asciiLower, asciiLower, List.map_append]⟩
  · rintro ⟨more, hmore⟩
    obtain ⟨start, rest, rfl, hstart, -⟩ := List.map_eq_append_iff.mp hmore.symm
    exact ⟨start, rest, rfl, hstart, itemsMatch_all rest⟩

theorem itemsMatch_within (term text : List Char) :
    itemsMatch (.anyText :: (term.map .char ++ [.anyText])) text = true ↔
      asciiLower term <:+: asciiLower text := by
  rw [itemsMatch_anyText]
  constructor
  · rintro ⟨rest, hrest, hmatch⟩
    exact ((itemsMatch_start term rest).mp hmatch).isInfix.trans (hrest.map Char.toLower).isInfix
  · rintro ⟨before, behind, htext⟩
    rw [List.append_assoc] at htext
    obtain ⟨first, rest, rfl, -, hrest⟩ := List.map_eq_append_iff.mp htext.symm
    refine ⟨rest, List.suffix_append first rest, (itemsMatch_start term rest).mpr ?_⟩
    exact ⟨behind, hrest.symm⟩

end Zaowutai.Lib
