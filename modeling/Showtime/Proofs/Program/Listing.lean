/-
# What a listing tells

The listing of a program tells the program: two programs with one listing are the
same.  Each part of a listing has an end of its own, so nothing in a name or in a
string can pass for what stands around it.

| part | its end |
| --- | --- |
| a name, a string | the closing quote |
| an operand | the parenthesis behind the number or the quote |
| a list | the bracket where another item could start |
| a statement, a method, a program | the parenthesis behind its last list |

Statements can hold statements, so the ends of these are found together with the ends
of their lists (`Statement.delimited_render`).
-/

import Showtime.Program.Render
import Showtime.Proofs.Text.Delimited

namespace Showtime

open Text

/-! ### Lists -/

/-- The empty list is a pair of brackets. -/
theorem toList_bracketList_nil : (bracketList []).toList = ['[', ']'] := by decide

/-- Behind the first item every item has a comma before it. -/
theorem toList_bracketList_cons (item : String) (items : List String) :
    (bracketList (item :: items)).toList =
      '[' :: item.toList ++ (items.flatMap fun s => ',' :: ' ' :: s.toList) ++ [']'] := by
  have hjoin (item : String) (items : List String) : (", ".intercalate (item :: items)).toList =
      item.toList ++ items.flatMap fun s => ',' :: ' ' :: s.toList := by
    induction items generalizing item with
    | nil => simp
    | cons next rest ih =>
      rw [String.intercalate_cons_cons, String.toList_append, ih]
      simp
  simp [bracketList, hjoin]

/-- **A list has an end** if its items have, and start with no bracket. -/
theorem delimited_bracketList {α : Type} {write : α → String}
    (hstarts : ∀ a, StartsBefore ']' (write a).toList) {xs : List α}
    (hread : ∀ x ∈ xs, Delimited (fun a => (write a).toList) x) :
    Delimited (fun xs => (bracketList (xs.map write)).toList) xs := by
  intro ys u v h
  match xs, ys with
  | [], [] => exact ⟨rfl, List.append_cancel_left h⟩
  | [], y :: ys =>
    simp only [List.map_nil, List.map_cons, toList_bracketList_nil, toList_bracketList_cons,
      List.cons_append, List.nil_append, List.append_assoc, List.cons.injEq, true_and] at h
    exact absurd h.symm (hstarts y).ne_stop
  | x :: xs, [] =>
    simp only [List.map_nil, List.map_cons, toList_bracketList_nil, toList_bracketList_cons,
      List.cons_append, List.nil_append, List.append_assoc, List.cons.injEq, true_and] at h
    exact absurd h (hstarts x).ne_stop
  | x :: xs, y :: ys =>
    simp only [List.map_cons, toList_bracketList_cons, List.cons_append, List.nil_append,
      List.append_assoc, List.cons.injEq, true_and, List.flatMap_map] at h
    obtain ⟨rfl, hrest⟩ := hread x List.mem_cons_self y _ _ h
    have hitem : ∀ z ∈ xs, Delimited (fun a => ',' :: ' ' :: (write a).toList) z := by
      intro z hz b u v hb
      exact hread z (.tail _ hz) b u v (List.cons.inj (List.cons.inj hb).2).2
    obtain ⟨rfl, huv⟩ := flatMap_stop_inj hitem (fun _ _ => ⟨',', rfl, by decide⟩)
      (fun _ _ => ⟨',', rfl, by decide⟩) hrest
    exact ⟨rfl, huv⟩

/-! ### Operands -/

namespace Value

/-- How the listing starts. -/
def heading : Value → String
  | int _ => "Integer("
  | str _ => "String("
  | var _ => "Variable("

/-- What the listing has between the parentheses. -/
def content : Value → String
  | int n => toString n.toInt
  | str s => quote s
  | var name => quote name

/-- A value is shown as its heading, its content and a bracket that closes. -/
theorem toList_render (v : Value) :
    v.render.toList = v.heading.toList ++ (v.content.toList ++ [')']) := by
  cases v <;>
    · rw [render, String.toList_append, String.toList_append, List.append_assoc]
      rfl

/-- The first letter of the listing. -/
def initial : Value → Char
  | int _ => 'I'
  | str _ => 'S'
  | var _ => 'V'

/-- The first character of a value that is shown. -/
theorem head?_render (v : Value) : v.render.toList.head? = some v.initial := by
  rw [toList_render]
  cases v <;> simp [heading, initial]

/-- No value is shown with a closing bracket in front. -/
theorem startsBefore_render (v : Value) : StartsBefore ']' v.render.toList :=
  ⟨_, v.head?_render, by cases v <;> simp [initial]⟩

/-- **An operand has an end.** -/
theorem delimited_render (a : Value) : Delimited (fun v => v.render.toList) a := by
  intro b u v h
  have hinitial : a.initial = b.initial := head_unique h a.head?_render b.head?_render
  simp only [toList_render, List.append_assoc, List.singleton_append] at h
  cases a with
  | int n =>
    cases b with
    | int m =>
      obtain ⟨hnm, huv⟩ := append_stop_inj toList_toString_int_injective
        (not_mem_toString_int (by decide) (by decide)) (List.append_cancel_left h)
      exact ⟨congrArg int (Int64.toInt_inj.1 hnm), huv⟩
    | _ => simp [initial] at hinitial
  | str s =>
    cases b with
    | str t =>
      obtain ⟨rfl, huv⟩ := delimited_quote s t _ _ (List.append_cancel_left h)
      exact ⟨rfl, (List.cons.inj huv).2⟩
    | _ => simp [initial] at hinitial
  | var name =>
    cases b with
    | var other =>
      obtain ⟨rfl, huv⟩ := delimited_quote name other _ _ (List.append_cancel_left h)
      exact ⟨rfl, (List.cons.inj huv).2⟩
    | _ => simp [initial] at hinitial

/-- A list of values ends by itself. -/
theorem delimited_renderList (args : List Value) :
    Delimited (fun args => (bracketList (args.map render)).toList) args :=
  delimited_bracketList startsBefore_render fun v _ => v.delimited_render

end Value

/-! ### Statements -/

/-- No two phrases have the same text. -/
theorem Phrase.text_injective : Function.Injective Phrase.text := by
  intro p q h
  have hfound := congrArg ofText? h
  rw [ofText?_text, ofText?_text] at hfound
  exact Option.some.inj hfound

/-- No two instructions have the same text. -/
theorem Op.text_injective : Function.Injective Op.text := by
  intro op op' h
  have hphrase : op.phrase = op'.phrase := Phrase.text_injective h
  cases op <;> cases op' <;> first | rfl | cases hphrase

/-- No two kinds of blocks have the same text. -/
theorem BlockKind.text_injective : Function.Injective BlockKind.text := by
  intro kind kind' h
  cases kind <;> cases kind' <;> first | rfl | exact absurd h (by decide)

namespace Statement

/-- Statements are shown one by one. -/
theorem renderAll_eq_map (statements : List Statement) :
    renderAll statements = statements.map render := by
  induction statements with
  | nil => rfl
  | cons s rest ih => rw [renderAll, ih, List.map_cons]

/-- The first letter of the listing. -/
def initial : Statement → Char
  | expression .. => 'E'
  | block .. => 'B'

/-- The first character of a statement that is shown. -/
theorem head?_render (s : Statement) : s.render.toList.head? = some s.initial := by
  cases s with
  | expression op args =>
    simp only [render, String.toList_append]
    rfl
  | block kind args body =>
    simp only [render, String.toList_append]
    rfl

/-- No statement is shown with a closing bracket in front. -/
theorem startsBefore_render (s : Statement) : StartsBefore ']' s.render.toList :=
  ⟨_, s.head?_render, by cases s <;> simp [initial]⟩

mutual

/-- **A statement has an end.** -/
theorem delimited_render (s : Statement) : Delimited (fun s => s.render.toList) s := by
  match s with
  | .expression op args =>
    intro t u v h
    have hinitial := head_unique h (head?_render _) t.head?_render
    cases t with
    | block => simp [initial] at hinitial
    | expression op' args' =>
      simp only [render, String.toList_append, List.append_assoc] at h
      obtain ⟨hop, hargs⟩ := (delimited_quote op.text).after h
      obtain ⟨rfl, hend⟩ := (Value.delimited_renderList args).after hargs
      obtain rfl := Op.text_injective hop
      exact ⟨rfl, List.append_cancel_left hend⟩
  | .block kind args body =>
    intro t u v h
    have hinitial := head_unique h (head?_render _) t.head?_render
    cases t with
    | expression => simp [initial] at hinitial
    | block kind' args' body' =>
      have hbody := delimited_bracketList startsBefore_render (delimited_render_of_mem body)
      simp only [render, renderAll_eq_map, String.toList_append, List.append_assoc] at h
      obtain ⟨hkind, hargs⟩ := (delimited_quote kind.text).after h
      obtain ⟨rfl, hlist⟩ := (Value.delimited_renderList args).after hargs
      obtain ⟨rfl, hend⟩ := hbody.after hlist
      obtain rfl := BlockKind.text_injective hkind
      exact ⟨rfl, List.append_cancel_left hend⟩

/-- Each of several statements ends by itself. -/
theorem delimited_render_of_mem (statements : List Statement) :
    ∀ s ∈ statements, Delimited (fun s => s.render.toList) s := by
  match statements with
  | [] => exact nofun
  | s :: rest =>
    rintro t (_ | ⟨_, ht⟩)
    · exact delimited_render s
    · exact delimited_render_of_mem rest t ht

end

/-- A list of statements ends by itself. -/
theorem delimited_renderAll (statements : List Statement) :
    Delimited (fun statements => (bracketList (renderAll statements)).toList) statements := by
  simp only [renderAll_eq_map]
  exact delimited_bracketList startsBefore_render fun s _ => s.delimited_render

end Statement

/-! ### Methods and programs -/

/-- No method is shown with a closing bracket in front. -/
theorem Method.startsBefore_render (m : Method) : StartsBefore ']' m.render.toList := by
  refine ⟨'M', ?_, by decide⟩
  simp only [render, String.toList_append]
  rfl

/-- **A method has an end.** -/
theorem Method.delimited_render (m : Method) : Delimited (fun m => m.render.toList) m := by
  intro m' u v h
  obtain ⟨name, params, body⟩ := m
  obtain ⟨name', params', body'⟩ := m'
  have hstarts (s : String) : StartsBefore ']' (quote s).toList :=
    ⟨'"', by simp [quote, quoteChars], by decide⟩
  simp only [render, String.toList_append, List.append_assoc] at h
  obtain ⟨rfl, hlist⟩ := (delimited_quote name).after h
  obtain ⟨rfl, hbody⟩ := (delimited_bracketList hstarts fun s _ => delimited_quote s).after hlist
  obtain ⟨rfl, hend⟩ := (Statement.delimited_renderAll body).after hbody
  exact ⟨rfl, List.append_cancel_left hend⟩

/-- **A program has an end.** -/
theorem Program.delimited_render (p : Program) : Delimited (fun p => p.render.toList) p := by
  intro q u v h
  obtain ⟨main, methods⟩ := p
  obtain ⟨main', methods'⟩ := q
  unfold render at h
  simp only [String.toList_append, List.append_assoc] at h
  obtain ⟨rfl, hlist⟩ := main.delimited_render.after h
  obtain ⟨rfl, hend⟩ :=
    (delimited_bracketList Method.startsBefore_render fun m _ => m.delimited_render).after hlist
  exact ⟨rfl, List.append_cancel_left hend⟩

/-- **A listing tells the program.**  Two programs with one listing are one program, and
two statements with one listing are one statement, whatever the names and the strings in
them look like. -/
theorem listing_tells_program :
    (∀ p q : Program, p.render = q.render → p = q) ∧
      ∀ s t : Statement, s.render = t.render → s = t := by
  refine ⟨fun p q h => ?_, fun s t h => ?_⟩
  · exact injective_of_delimited Program.delimited_render (congrArg String.toList h)
  · exact injective_of_delimited Statement.delimited_render (congrArg String.toList h)

/-- A string that looks like two operands. -/
example : (Statement.expression .print [.str "a\"), String(\"b"]).render ≠
    (Statement.expression .print [.str "a", .str "b"]).render := by decide +kernel

end Showtime
