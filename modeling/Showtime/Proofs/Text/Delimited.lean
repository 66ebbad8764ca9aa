/-
# Texts with an end

A text has an end of its own if it tells what it is the text of, whatever is written
behind it: no text of anything else starts like it (`Text.Delimited`).  Such texts can
be written one after the other without losing anything.

| text | its end |
| --- | --- |
| an escape | the character behind the backslash, or the closing brace |
| a quoted string | the first quote that is not part of an escape |
| a number | a character that is no digit, if one follows |

A sequence of such texts has an end as well if it is closed by a character with which
none of them starts (`flatMap_stop_inj`).
-/

import Mathlib.Data.List.Basic
import Showtime.Text.Digit
import Showtime.Text.Quoted

namespace Showtime
namespace Text

variable {α : Type} {write : α → List Char} {stop : Char} {u v : List Char}

/-- The text of `a` tells `a` and where it ends, whatever follows. -/
def Delimited (write : α → List Char) (a : α) : Prop :=
  ∀ b u v, write a ++ u = write b ++ v → a = b ∧ u = v

/-- Texts that end by themselves tell what they are written from. -/
theorem injective_of_delimited (h : ∀ a, Delimited write a) : Function.Injective write := by
  intro a b hab
  exact (h a b [] [] (congrArg (· ++ []) hab)).1

/-- What stands behind the same beginning. -/
theorem Delimited.after {a b : α} (h : Delimited write a) {before : List Char}
    (heq : before ++ (write a ++ u) = before ++ (write b ++ v)) : a = b ∧ u = v :=
  h b u v (List.append_cancel_left heq)

/-- Texts that go on alike start with the same character. -/
theorem head_unique {xs ys : List Char} {c d : Char} (h : xs ++ u = ys ++ v)
    (hx : xs.head? = some c) (hy : ys.head? = some d) : c = d := by
  have hhead := congrArg List.head? h
  rw [List.head?_append, List.head?_append, hx, hy] at hhead
  exact Option.some.inj hhead

/-! ### Sequences -/

/-- The text starts with a character other than `stop`. -/
def StartsBefore (stop : Char) (text : List Char) : Prop :=
  ∃ c, text.head? = some c ∧ c ≠ stop

/-- A text that starts with another character does not start with the stop. -/
theorem StartsBefore.ne_stop {text : List Char} (h : StartsBefore stop text) :
    text ++ u ≠ stop :: v := by
  obtain ⟨c, hc, hne⟩ := h
  intro heq
  have hstop : [stop].head? = some stop := rfl
  exact hne (head_unique heq hc hstop)

/-- **Texts up to a closing character** tell their sequence, whatever follows. -/
theorem flatMap_stop_inj {xs ys : List α} (hread : ∀ x ∈ xs, Delimited write x)
    (hxs : ∀ x ∈ xs, StartsBefore stop (write x)) (hys : ∀ y ∈ ys, StartsBefore stop (write y))
    (h : xs.flatMap write ++ stop :: u = ys.flatMap write ++ stop :: v) : xs = ys ∧ u = v := by
  induction xs generalizing ys with
  | nil =>
    cases ys with
    | nil => exact ⟨rfl, List.cons_inj_right stop |>.1 h⟩
    | cons y ys =>
      rw [List.flatMap_cons, List.append_assoc] at h
      exact absurd h.symm (hys y List.mem_cons_self).ne_stop
  | cons x xs ih =>
    rw [List.flatMap_cons, List.append_assoc] at h
    cases ys with
    | nil => exact absurd h (hxs x List.mem_cons_self).ne_stop
    | cons y ys =>
      rw [List.flatMap_cons, List.append_assoc] at h
      obtain ⟨rfl, hrest⟩ := hread x List.mem_cons_self y _ _ h
      obtain ⟨rfl, huv⟩ := ih (fun z hz => hread z (.tail _ hz)) (fun z hz => hxs z (.tail _ hz))
        (fun z hz => hys z (.tail _ hz)) hrest
      exact ⟨rfl, huv⟩

/-- A closing character that occurs nowhere else. -/
theorem append_stop_inj (hinj : Function.Injective write) (hstop : ∀ a, stop ∉ write a) {a b : α}
    (h : write a ++ stop :: u = write b ++ stop :: v) : a = b ∧ u = v := by
  have hchar (c : Char) : Delimited (fun c => [c]) c := fun d u v h => List.cons.inj h
  have hother (b : α) : ∀ c ∈ write b, StartsBefore stop [c] := by
    intro c hc
    exact ⟨c, rfl, ne_of_mem_of_not_mem hc (hstop b)⟩
  obtain ⟨htexts, huv⟩ := flatMap_stop_inj (fun c _ => hchar c) (hother a) (hother b)
    (by simpa using h)
  exact ⟨hinj htexts, huv⟩

/-! ### Digits -/

/-- The last digit is read last and counts once. -/
theorem number?_append_singleton (base acc : Nat) (cs : List Char) (c : Char) :
    number? base acc (cs ++ [c]) =
      (number? base acc cs).bind fun n => (digitIn? base c).map (n * base + ·) := by
  induction cs generalizing acc with
  | nil =>
    rw [List.nil_append, number?, number?]
    cases digitIn? base c <;> rfl
  | cons d cs ih =>
    rw [List.cons_append, number?, number?]
    cases digitIn? base d with
    | none => rfl
    | some n => exact ih _

/-- A digit is read back in every base up to sixteen. -/
theorem digitIn?_digitChar {base n : Nat} (hle : base ≤ 16) (hlt : n < base) :
    digitIn? base n.digitChar = some n := by
  have hdigits : ∀ k < 16, digit? k.digitChar = some k := by decide
  rw [digitIn?, hdigits n (Nat.lt_of_lt_of_le hlt hle), Option.filter_some,
    if_pos (decide_eq_true hlt)]

section

variable {base : Nat} (hone : 1 < base) (hle : base ≤ 16)
include hone hle

/-- Digits are read back. -/
theorem number?_toDigits (n : Nat) : number? base 0 (Nat.toDigits base n) = some n := by
  induction n using Nat.strongRecOn with
  | ind n ih =>
    rw [Nat.toDigits_eq_if hone]
    split_ifs with hlt
    · simp [number?, digitIn?_digitChar hle hlt]
    · have hmod : n % base < base := Nat.mod_lt n (Nat.zero_lt_of_lt hone)
      have hpos : 0 < n := by omega
      have hdiv : n / base < n := Nat.div_lt_self hpos hone
      rw [number?_append_singleton, ih (n / base) hdiv, digitIn?_digitChar hle hmod]
      simp only [Option.bind_some, Option.map_some, Nat.div_add_mod']

/-- No two numbers have the same digits. -/
theorem toDigits_injective : Function.Injective (Nat.toDigits base) := by
  intro m n h
  have hnumber := congrArg (number? base 0) h
  rw [number?_toDigits hone hle, number?_toDigits hone hle] at hnumber
  exact Option.some.inj hnumber

/-- What is no digit does not occur. -/
theorem not_mem_toDigits {c : Char} (hc : digit? c = none) (n : Nat) :
    c ∉ Nat.toDigits base n := by
  have hnone {acc k : Nat} {cs : List Char} (h : number? base acc cs = some k) : c ∉ cs := by
    induction cs generalizing acc with
    | nil => exact List.not_mem_nil
    | cons d cs ih =>
      rw [number?] at h
      split at h
      · next hd =>
        rintro (_ | ⟨_, hmem⟩)
        · simp [digitIn?, hc] at hd
        · exact ih h hmem
      · cases h
  exact hnone (number?_toDigits hone hle n)

end

/-- An integer is written as its digits, with a minus sign if it is negative. -/
theorem toList_toString_int (n : Int) : (toString n).toList =
    if 0 ≤ n then Nat.toDigits 10 n.toNat else '-' :: Nat.toDigits 10 (-n).toNat := by
  change n.repr.toList = _
  rw [Int.repr_eq_if]
  split_ifs <;> simp [Nat.repr_eq_ofList_toDigits]

/-- No two integers are written alike. -/
theorem toList_toString_int_injective :
    Function.Injective fun n : Int => (toString n).toList := by
  have hdigits : Function.Injective (Nat.toDigits 10) := toDigits_injective (by decide) (by decide)
  have hminus (n : Nat) (cs : List Char) : Nat.toDigits 10 n ≠ '-' :: cs := by
    intro h
    have hmem : '-' ∈ Nat.toDigits 10 n := h ▸ List.mem_cons_self
    exact not_mem_toDigits (by decide) (by decide) (by decide) n hmem
  intro m n h
  simp only [toList_toString_int] at h
  split_ifs at h
  · have := hdigits h
    omega
  · exact absurd h (hminus _ _)
  · exact absurd h.symm (hminus _ _)
  · have := hdigits (List.cons.inj h).2
    omega

/-- What is neither a digit nor a sign does not occur. -/
theorem not_mem_toString_int {c : Char} (hc : digit? c = none) (hsign : c ≠ '-') (n : Int) :
    c ∉ (toString n).toList := by
  have hnone (k : Nat) : c ∉ Nat.toDigits 10 k :=
    not_mem_toDigits (by decide) (by decide) hc k
  rw [toList_toString_int]
  split_ifs
  · exact hnone _
  · exact List.not_mem_cons_of_ne_of_not_mem hsign (hnone _)

/-! ### Escapes -/

/-- Characters with a short escape, and what stands behind the backslash. -/
def shortEscapes : List (Char × Char) :=
  [('\x00', '0'), ('\t', 't'), ('\r', 'r'), ('\n', 'n'), ('\\', '\\'), ('"', '"')]

/-- No two characters have the same short escape. -/
theorem eq_of_mem_shortEscapes {c d mark : Char} (hc : (c, mark) ∈ shortEscapes)
    (hd : (d, mark) ∈ shortEscapes) : c = d := by
  have hunique : ∀ e ∈ shortEscapes, ∀ e' ∈ shortEscapes, e.2 = e'.2 → e.1 = e'.1 := by decide
  exact hunique _ hc _ hd rfl

/-- The letter of a hexadecimal escape is no short escape. -/
theorem not_mem_shortEscapes (c : Char) : (c, 'u') ∉ shortEscapes := by
  have hmarks : ∀ e ∈ shortEscapes, e.2 ≠ 'u' := by decide
  exact fun h => hmarks _ h rfl

/-- The ways to show a character in a string. -/
inductive Shown (c : Char) : List Char → Prop
  | plain (hslash : c ≠ '\\') (hquote : c ≠ '"') : Shown c [c]
  | short {mark : Char} (h : (c, mark) ∈ shortEscapes) : Shown c ['\\', mark]
  | code : Shown c (escapeHex c)

/-- Every character is shown in one of the ways of a string. -/
theorem shown_escapeChar (c : Char) : Shown c (escapeChar '"' c) := by
  unfold escapeChar
  split
  iterate 5 exact .short (by decide)
  next hslash =>
    split_ifs with hquote
    · subst hquote
      exact .short (by decide)
    · exact .plain hslash hquote
    · exact .code

/-- A character is never shown by a quote in front. -/
theorem Shown.startsBefore {c : Char} {text : List Char} (h : Shown c text) :
    StartsBefore '"' text := by
  cases h with
  | plain _ hquote => exact ⟨c, rfl, hquote⟩
  | short | code => exact ⟨'\\', rfl, by decide⟩

/-- A plain character is no backslash, and behind a backslash the marks differ. -/
theorem Shown.inj {c d : Char} {xs ys : List Char} (hc : Shown c xs) (hd : Shown d ys)
    (h : xs ++ u = ys ++ v) : c = d ∧ u = v := by
  cases hc with
  | plain hslash =>
    cases hd with
    | plain => exact List.cons.inj h
    | short | code => exact absurd (List.cons.inj h).1 hslash
  | short hc =>
    cases hd with
    | plain hslash => exact absurd (List.cons.inj h).1.symm hslash
    | short hd =>
      obtain ⟨rfl, huv⟩ := List.cons.inj (List.cons.inj h).2
      exact ⟨eq_of_mem_shortEscapes hc hd, huv⟩
    | code =>
      obtain rfl := (List.cons.inj (List.cons.inj h).2).1
      exact absurd hc (not_mem_shortEscapes c)
  | code =>
    cases hd with
    | plain hslash => exact absurd (List.cons.inj h).1.symm hslash
    | short hd =>
      obtain rfl := (List.cons.inj (List.cons.inj h).2).1
      exact absurd hd (not_mem_shortEscapes d)
    | code =>
      have hdigits : Nat.toDigits 16 c.toNat ++ '\x7d' :: u =
          Nat.toDigits 16 d.toNat ++ '\x7d' :: v := by
        simpa [escapeHex] using h
      obtain ⟨hcd, huv⟩ := append_stop_inj (toDigits_injective (by decide) (by decide))
        (not_mem_toDigits (by decide) (by decide) (by decide)) hdigits
      exact ⟨Char.toNat_inj.1 hcd, huv⟩

/-- **A quoted string has an end.** -/
theorem delimited_quote (s : String) : Delimited (fun s => (quote s).toList) s := by
  intro t u v h
  have hchars : s.toList.flatMap (escapeChar '"') ++ '"' :: u =
      t.toList.flatMap (escapeChar '"') ++ '"' :: v := by
    simpa [quote, quoteChars] using h
  have hread (c : Char) : Delimited (escapeChar '"') c := fun d u v =>
    (shown_escapeChar c).inj (shown_escapeChar d)
  have hstarts (c : Char) : StartsBefore '"' (escapeChar '"' c) :=
    (shown_escapeChar c).startsBefore
  obtain ⟨hst, huv⟩ := flatMap_stop_inj (fun c _ => hread c) (fun c _ => hstarts c)
    (fun c _ => hstarts c) hchars
  exact ⟨String.toList_inj.1 hst, huv⟩

end Text
end Showtime
