/-
# The first token of a line

A line has one instruction, and it comes first.  What the lexer waits for and the
line that it is on tell what it has found before, however many faults it has
passed on the way:

| it waits for | on its line it has found |
| --- | --- |
| an instruction | no token |
| an operand | an instruction, and perhaps operands |

`Lexer.Recalls` says this of a lexer and all that it has found.  Separators keep
it (`Recalls.pass`): a line end leads to an instruction, and to a line on which
nothing was found yet.  A piece keeps it because only a token changes what is
awaited (`Recalls.concat`).  So it holds after any number of calls
(`Recalls.scans`), and it decides of each token whether it is an instruction
(`Recalls.isPhrase_iff`).
-/

import Showtime.Proofs.Token.Calls

namespace Showtime
namespace Lexer

/-- A token, the end of the text among them; not a fault. -/
def Found.isToken : Found → Bool
  | error _ => false
  | _ => true

/-- Where an operand is awaited, a token is no phrase. -/
theorem isPhrase_of_cutOperand {c : Char} {cs : List Char} {t : Token}
    (h : (cutOperand c cs).outcome = .ok t) : t.isPhrase = false := by
  unfold cutOperand at h
  split at h
  · unfold cutString at h
    split at h <;> cases h
    rfl
  split at h
  · obtain ⟨n, rfl⟩ := exists_of_orFault h
    rfl
  split at h
  · unfold cutNegative at h
    split at h
    · cases h
      rfl
    · obtain ⟨n, rfl⟩ := exists_of_orFault h
      rfl
  split at h
  · cases h
    rfl
  split at h
  · obtain ⟨b, rfl⟩ := exists_of_orFault h
    rfl
  · cases h
    rfl

/-- **What is awaited decides the kind of token.** -/
theorem isPhrase_iff_of_cut {m : Mode} {c : Char} {cs : List Char} {t : Token}
    (h : (m.cut c cs).outcome = .ok t) : t.isPhrase = true ↔ m = .instruction := by
  cases m with
  | instruction => exact iff_of_true (isPhrase_of_cutInstruction h) rfl
  | operand =>
    rw [isPhrase_of_cutOperand h]
    exact iff_of_false Bool.false_ne_true nofun

/-! ### What a lexer has found -/

/-- The lexer has found these, and its mode and its line tell what they are. -/
structure Recalls (past : List Found) (lx : Lexer) : Prop where
  /-- Nothing was found further down. -/
  line_le : ∀ f ∈ past, f.span.line ≤ lx.line
  /-- Operands are awaited on a line that has its instruction. -/
  opened : lx.mode = .operand →
    ∃ l, .token l ∈ past ∧ l.token.isPhrase = true ∧ l.span.line = lx.line
  /-- They are awaited from the first token of a line on. -/
  begun : ∀ l, .token l ∈ past → l.span.line = lx.line → lx.mode = .operand
  /-- The end is found where no text is ahead. -/
  ended : ∀ span, .eof span ∈ past → lx.rest = []

/-- At the start nothing was found. -/
theorem recalls_ofChars (cs : List Char) : Recalls [] (ofChars cs) where
  line_le := nofun
  opened := nofun
  begun := nofun
  ended := nofun

section

variable {past : List Found} {lx : Lexer}

/-- An instruction is looked for exactly where none was found on the line. -/
theorem Recalls.mode_ne_instruction_iff (h : Recalls past lx) :
    lx.mode ≠ .instruction ↔
      ∃ l, .token l ∈ past ∧ l.token.isPhrase = true ∧ l.span.line = lx.line := by
  constructor
  · intro hmode
    cases hoperand : lx.mode with
    | instruction => exact absurd hoperand hmode
    | operand => exact h.opened hoperand
  · rintro ⟨l, hl, -, hline⟩
    rw [h.begun l hl hline]
    exact nofun

/-- **Separators keep what is known**: behind a line end nothing was found yet. -/
theorem Recalls.pass (h : Recalls past lx) {gap rest : List Char} (hrest : lx.rest = gap ++ rest) :
    Recalls past (lx.pass gap rest) := by
  have hended (span : Span) (hspan : .eof span ∈ past) : rest = [] := by
    have hnil := h.ended span hspan
    rw [hrest] at hnil
    exact (List.append_eq_nil_iff.1 hnil).2
  have hline : (lx.pass gap rest).line = lx.line + gap.count '\n' := Place.line_after lx.place gap
  by_cases hmem : '\n' ∈ gap
  · have hmode : (lx.pass gap rest).mode = .instruction := if_pos hmem
    have hlt : lx.line < (lx.pass gap rest).line := by
      rw [hline]
      exact Nat.lt_add_of_pos_right (List.count_pos_iff.2 hmem)
    refine ⟨fun f hf => Nat.le_trans (h.line_le f hf) (Nat.le_of_lt hlt), fun hoperand => ?_,
      fun l hl hsame => ?_, hended⟩
    · rw [hmode] at hoperand
      cases hoperand
    · exact absurd (h.line_le _ hl) (Nat.not_le.2 (hsame ▸ hlt))
  · have hmode : (lx.pass gap rest).mode = lx.mode := if_neg hmem
    rw [List.count_eq_zero_of_not_mem hmem, Nat.add_zero] at hline
    refine ⟨?_, ?_, ?_, hended⟩
    · rw [hline]
      exact h.line_le
    · rw [hmode, hline]
      exact h.opened
    · rw [hmode, hline]
      exact h.begun

/-- One more is found on the line: a token leads to operands, and nothing else changes
what is awaited. -/
theorem Recalls.concat (h : Recalls past lx) {f : Found} {next : Lexer}
    (hspan : f.span.line = lx.line) (hline : next.line = lx.line)
    (hopened : next.mode = .operand →
      lx.mode = .operand ∨ ∃ l, f = .token l ∧ l.token.isPhrase = true)
    (hbegun : (lx.mode = .operand ∨ ∃ l, f = .token l) → next.mode = .operand)
    (hended : (lx.rest = [] ∨ ∃ span, f = .eof span) → next.rest = []) :
    Recalls (past ++ [f]) next := by
  have hmem {g : Found} : g ∈ past ++ [f] ↔ g ∈ past ∨ f = g := by
    rw [List.mem_append, List.mem_singleton, eq_comm]
  rw [← hline] at hspan
  refine ⟨fun g hg => ?_, fun hmode => ?_, fun l hl hsame => ?_, fun span hend => ?_⟩
  · rcases hmem.1 hg with hg | rfl
    · exact hline ▸ h.line_le g hg
    · exact Nat.le_of_eq hspan
  · rcases hopened hmode with hmode | ⟨l, rfl, hphrase⟩
    · obtain ⟨l, hl, hphrase, hsame⟩ := h.opened hmode
      exact ⟨l, hmem.2 (.inl hl), hphrase, hline ▸ hsame⟩
    · exact ⟨l, hmem.2 (.inr rfl), hphrase, hspan⟩
  · rcases hmem.1 hl with hl | hl
    · exact hbegun (.inl (h.begun l hl (hline ▸ hsame)))
    · exact hbegun (.inr ⟨l, hl⟩)
  · rcases hmem.1 hend with hend | hend
    · exact hended (.inl (h.ended span hend))
    · exact hended (.inr ⟨span, hend⟩)

/-- **One call.** -/
theorem Recalls.scan (h : Recalls past lx) : Recalls (past ++ [lx.scan.1]) lx.scan.2 := by
  rcases separators_or_gap lx.rest with hall | ⟨gap, c, cs, hgap, hc, hrest⟩
  · rw [scan_of_separators hall]
    have hpass : Recalls past (lx.pass lx.rest []) := h.pass (List.append_nil _).symm
    refine hpass.concat rfl rfl .inl (fun hmode => ?_) fun _ => rfl
    rcases hmode with hmode | ⟨_, ⟨⟩⟩
    exact hmode
  · rw [scan_of_gap hgap hc hrest]
    have hpass := h.pass hrest
    have hahead := rest_pass lx gap (c :: cs)
    generalize lx.pass gap (c :: cs) = here at hpass hahead
    have hended : here.rest ≠ [] := by
      rw [hahead]
      exact List.cons_ne_nil c cs
    cases houtcome : (here.mode.cut c cs).outcome with
    | error fault =>
      simp only [take, Cut.found, Cut.mode, houtcome]
      refine hpass.concat rfl rfl .inl (fun hmode => ?_) fun hend => ?_
      · rcases hmode with hmode | ⟨_, ⟨⟩⟩
        exact hmode
      · rcases hend with hend | ⟨_, ⟨⟩⟩
        exact absurd hend hended
    | ok t =>
      simp only [take, Cut.found, Cut.mode, houtcome]
      refine hpass.concat rfl rfl (fun _ => ?_) (fun _ => rfl) fun hend => ?_
      · cases hmode : here.mode with
        | operand => exact .inl rfl
        | instruction => exact .inr ⟨_, rfl, (isPhrase_iff_of_cut houtcome).2 hmode⟩
      · rcases hend with hend | ⟨_, ⟨⟩⟩
        exact absurd hend hended

/-- **A token is an instruction exactly if no token was found on its line.** -/
theorem Recalls.isPhrase_iff (h : Recalls past lx) {l : Lexeme} (hscan : lx.scan.1 = .token l) :
    l.token.isPhrase = true ↔
      ∀ f ∈ past, f.isToken = true → f.span.line ≠ l.span.line := by
  rcases separators_or_gap lx.rest with hall | ⟨gap, c, cs, hgap, hc, hrest⟩
  · rw [scan_of_separators hall] at hscan
    cases hscan
  · rw [scan_of_gap hgap hc hrest] at hscan
    have hpass := h.pass hrest
    have hahead := rest_pass lx gap (c :: cs)
    generalize lx.pass gap (c :: cs) = here at hscan hpass hahead
    obtain ⟨hcut, hline⟩ :
        (here.mode.cut c cs).outcome = .ok l.token ∧ l.span.line = here.line := by
      cases houtcome : (here.mode.cut c cs).outcome with
      | error fault =>
        simp only [take, Cut.found, houtcome] at hscan
        cases hscan
      | ok t =>
        simp only [take, Cut.found, houtcome] at hscan
        cases hscan
        exact ⟨rfl, rfl⟩
    rw [isPhrase_iff_of_cut hcut, hline]
    constructor
    · intro hmode f hf htoken hsame
      cases f with
      | error e => cases htoken
      | eof span =>
        have hnil := hpass.ended span hf
        rw [hahead] at hnil
        cases hnil
      | token k =>
        have hoperand := hpass.begun k hf hsame
        rw [hmode] at hoperand
        cases hoperand
    · intro hfirst
      by_contra hmode
      obtain ⟨k, hk, -, hsame⟩ := hpass.mode_ne_instruction_iff.1 hmode
      exact hfirst _ hk rfl hsame

/-! ### Any number of calls -/

/-- Any number of calls are recalled, over faults and behind the end. -/
theorem Recalls.scans (h : Recalls past lx) (n : Nat) :
    Recalls (past ++ lx.scans n) (lx.behind (List.replicate n .scan)) := by
  induction n generalizing past lx with
  | zero =>
    rw [Lexer.scans, List.append_nil]
    exact h
  | succ n ih =>
    have hnext := ih h.scan
    rw [List.append_assoc] at hnext
    exact hnext

/-- Each token that is found. -/
theorem Recalls.isPhrase_iff_of_scans (h : Recalls past lx) {n : Nat} {before after : List Found}
    {l : Lexeme} (hscans : lx.scans n = before ++ .token l :: after) :
    l.token.isPhrase = true ↔
      ∀ f ∈ past ++ before, f.isToken = true → f.span.line ≠ l.span.line := by
  induction before generalizing past lx n with
  | nil =>
    cases n with
    | zero => cases hscans
    | succ n =>
      rw [List.append_nil]
      exact h.isPhrase_iff (List.cons.inj hscans).1
  | cons f before ih =>
    cases n with
    | zero => cases hscans
    | succ n =>
      obtain ⟨rfl, hrest⟩ := List.cons.inj hscans
      have hnext := ih h.scan hrest
      rw [List.append_assoc] at hnext
      exact hnext

end

end Lexer

/-! ### Line by line -/

/-- The tokens of a line, if being an instruction means to be the first of a line. -/
theorem exists_filter_line_eq {ls : List Lexeme}
    (h : ∀ before l after, ls = before ++ l :: after →
      (l.token.isPhrase = true ↔ ∀ k ∈ before, k.span.line ≠ l.span.line))
    {l : Lexeme} (hl : l ∈ ls) :
    ∃ first operands, ls.filter (·.span.line = l.span.line) = first :: operands ∧
      first.token.isPhrase = true ∧ ∀ k ∈ operands, k.token.isPhrase = false := by
  cases hline : ls.filter (·.span.line = l.span.line) with
  | nil =>
    have hmem := List.filter_eq_nil_iff.1 hline l hl
    simp at hmem
  | cons first operands =>
    obtain ⟨before, after, rfl, hbefore, hfirst, rfl⟩ := List.filter_eq_cons_iff.1 hline
    rw [decide_eq_true_eq] at hfirst
    refine ⟨first, _, rfl, (h before first after rfl).2 fun k hk => ?_, fun k hk => ?_⟩
    · rw [hfirst]
      simpa using hbefore k hk
    · obtain ⟨hk, hsame⟩ := List.mem_filter.1 hk
      rw [decide_eq_true_eq] at hsame
      obtain ⟨between, behind, rfl⟩ := List.append_of_mem hk
      -- the first of the line comes before `k`
      have hsplit := h (before ++ first :: between) k behind (by simp)
      rw [← Bool.not_eq_true, hsplit]
      exact fun hnone => hnone first (by simp) (hfirst.trans hsame.symm)

/-- **One instruction on each line, and it comes first.**  Call a lexer any number of
times, over all faults.

* It waits for operands exactly if it has found an instruction on the line that it
  is on.
* A token is an instruction exactly if no token was found before on the same line.

So in a text without faults every line that has tokens has an instruction, which is
its first token, and no other. -/
theorem one_instruction_per_line (source : String) :
    let start := Lexer.ofSource source
    (∀ n, let lx := start.behind (List.replicate n .scan)
      lx.mode ≠ .instruction ↔ ∃ l, .token l ∈ start.scans n ∧ l.token.isPhrase = true ∧
        l.span.line = lx.line) ∧
    (∀ n before l after, start.scans n = before ++ .token l :: after →
      (l.token.isPhrase = true ↔
        ∀ f ∈ before, f.isToken = true → f.span.line ≠ l.span.line)) ∧
    ∀ ls, tokenize source = .ok ls → ∀ l ∈ ls,
      ∃ first operands, ls.filter (·.span.line = l.span.line) = first :: operands ∧
        first.token.isPhrase = true ∧ ∀ k ∈ operands, k.token.isPhrase = false := by
  intro start
  have hstart : Lexer.Recalls [] start := Lexer.recalls_ofChars source.toList
  refine ⟨fun n => (hstart.scans n).mode_ne_instruction_iff,
    fun n before l after hscans => hstart.isPhrase_iff_of_scans hscans, fun ls hls l hl => ?_⟩
  obtain ⟨-, rfl⟩ := tokenize_eq_ok_iff.1 hls
  obtain ⟨last, hscans, -⟩ := start.scans_stream
  refine exists_filter_line_eq (fun before k after hsplit => ?_) hl
  have hfound : start.scans (start.stream.lexemes.length + 1) =
      before.map .token ++ .token k :: (after.map .token ++ [last]) := by
    rw [hscans, hsplit]
    simp
  rw [hstart.isPhrase_iff_of_scans hfound, List.nil_append, List.forall_mem_map]
  exact forall₂_congr fun f _ => ⟨fun h => h rfl, fun h _ => h⟩

/-- On the second line a fault comes first and changes nothing; the mode turns back
only where the next line starts. -/
example :
    let start := Lexer.ofSource "CHILL x\n ? CHILL 1\nx"
    (start.scans 5).map Lexer.Found.isToken = [true, true, false, true, true] ∧
      (start.scans 5).map (·.span.line) = [1, 1, 2, 2, 2] ∧
      (List.range 7).map (fun n => (start.behind (List.replicate n .scan)).mode) =
        [.instruction, .operand, .operand, .instruction, .operand, .operand, .instruction] := by
  decide +kernel

end Showtime
