import LiterateFun.Proofs.Printing.ExpressionReading
import LiterateFun.Proofs.Printing.Parsed

/-!
This module contains the theorem that a printed tree can be read in one way only. The lines of a
block tell its statements: where a block ends, no line is indented as its lines are.
-/

namespace LiterateFun

theorem parameters_append_inj {xs xs' : List Identifier} (hxs : ∀ x ∈ xs, isName x.name)
    (hxs' : ∀ x ∈ xs', isName x.name) {rest rest' : List Char}
    (h : (printParameters xs).toList ++ rest = (printParameters xs').toList ++ rest') :
    xs.map Identifier.shown = xs'.map Identifier.shown ∧ rest = rest' := by
  have hprint (xs : List Identifier) (rest : List Char) : (printParameters xs).toList ++ rest =
      '\x7b' :: ([',', ' '].intercalate (xs.map fun x => x.print.toList) ++ '\x7d' :: rest) := by
    simp [printParameters, String.toList_intercalate, Function.comp_def]
  rw [hprint, hprint] at h
  apply intercalate_append_inj _ rfl _ _ (List.cons.inj h).2
  · decide
  · intro x hx
    have hname : isName x.name := List.forall_mem_append.2 ⟨hxs, hxs'⟩ x hx
    obtain ⟨c, text, htext, hc⟩ := Identifier.exists_print_eq hname
    refine ⟨c, text, htext, ?_⟩
    rintro rfl
    revert hc
    decide
  · intro x hx x' hx' d d' rest rest' hd hd' heq
    exact Identifier.shown_eq_of_print_append (hxs x hx) (hxs' x' hx') hd hd' heq

def Statement.lead : Statement → Char
  | .expression _ => '('
  | .return _ => 'r'
  | .conditional _ _ _ => 'i'
  | .declaration _ => '\\'

theorem Statement.exists_lead_eq (s : Statement) (depth : Nat) :
    ∃ text, (s.print depth).toList = s.lead :: text := by
  cases s with
  | expression value =>
    obtain ⟨text, htext⟩ := value.exists_print_eq
    exact ⟨text ++ [';'], by simp [Statement.print, htext, Statement.lead]⟩
  | «return» value => exact ⟨_, by simp [Statement.print, Statement.lead]; rfl⟩
  | conditional condition consequent alternative =>
    cases alternative with
    | none => exact ⟨_, by simp [Statement.print, Statement.lead]; rfl⟩
    | some alternative => exact ⟨_, by simp [Statement.print, Statement.lead]; rfl⟩
  | declaration d =>
    obtain ⟨word, -, inner, hprint⟩ := d.exists_print_eq depth
    exact ⟨_, hprint⟩

def EndsBlock (depth : Nat) (text : List Char) : Prop :=
  ∀ c rest, text ≠ (indentation depth).toList ++ c :: rest

theorem endsBlock_closing (depth : Nat) (rest : List Char) :
    EndsBlock (depth + 1) ((indentation depth).toList ++ '\x7d' :: rest) := by
  intro c rest' h
  have hsplit : (indentation (depth + 1)).toList =
      (indentation depth).toList ++ List.replicate 4 ' ' := by
    simp only [indentation, String.toList_ofList, Nat.mul_add, List.replicate_add]
  rw [hsplit, List.append_assoc] at h
  exact absurd (List.cons.inj (List.append_cancel_left h)).1 (by decide)

abbrev Statement.IsPrintable (s : Statement) : Prop :=
  Printable s.identifiers s.subexpressions

abbrev Declaration.IsPrintable (d : Declaration) : Prop :=
  Printable d.identifiers d.subexpressions

abbrev Block.IsPrintable (b : Block) : Prop :=
  Printable (blockIdentifiers b) (blockSubexpressions b)

def Block.Readable (depth : Nat) (b : Block) : Prop :=
  ∀ b' : Block, b'.IsPrintable → ∀ rest rest',
    EndsBlock depth rest → EndsBlock depth rest' →
      (printBlock depth b).toList ++ rest = (printBlock depth b').toList ++ rest' →
        relabelStatements Identifier.shown b = relabelStatements Identifier.shown b' ∧ rest = rest'

def Statement.Readable (depth : Nat) (s : Statement) : Prop :=
  ∀ s' : Statement, s'.IsPrintable → ∀ rest rest',
    (s.print depth).toList ++ '\n' :: rest = (s'.print depth).toList ++ '\n' :: rest' →
      s.relabel Identifier.shown = s'.relabel Identifier.shown ∧ rest = rest'

def Declaration.Readable (depth : Nat) (d : Declaration) : Prop :=
  ∀ d' : Declaration, d'.IsPrintable → ∀ rest rest',
    (d.print depth).toList ++ rest = (d'.print depth).toList ++ rest' →
      d.relabel Identifier.shown = d'.relabel Identifier.shown ∧ rest = rest'

section

variable {depth : Nat} {rest rest' : List Char}

theorem braced_append_inj {b b' : Block} (hb : Block.Readable (depth + 1) b) (hb' : b'.IsPrintable)
    (h : (printBraced depth (printBlock (depth + 1) b)).toList ++ rest =
      (printBraced depth (printBlock (depth + 1) b')).toList ++ rest') :
    relabelStatements Identifier.shown b = relabelStatements Identifier.shown b' ∧
      rest = rest' := by
  have hprint (lines : String) (rest : List Char) : (printBraced depth lines).toList ++ rest =
      '\x7b' :: '\n' :: (lines.toList ++ ((indentation depth).toList ++ '\x7d' :: rest)) := by
    simp [printBraced]
  rw [hprint, hprint] at h
  obtain ⟨heq, h⟩ := hb b' hb' _ _ (endsBlock_closing depth rest) (endsBlock_closing depth rest')
    (List.cons.inj (List.cons.inj h).2).2
  exact ⟨heq, (List.cons.inj (List.append_cancel_left h)).2⟩

theorem Block.readable_nil : Block.Readable depth [] := by
  intro b' _ rest rest' hrest _ h
  cases b' with
  | nil => exact ⟨rfl, h⟩
  | cons s' b' =>
    obtain ⟨text, htext⟩ := s'.exists_lead_eq depth
    simp only [printBlock, String.toList_append, htext, List.append_assoc, List.cons_append] at h
    exact absurd h (hrest _ _)

theorem Block.isPrintable_cons {s : Statement} {b : Block} (h : Block.IsPrintable (s :: b)) :
    s.IsPrintable ∧ b.IsPrintable :=
  ⟨h.mono (by simp [blockIdentifiers]) (by simp [blockSubexpressions]),
    h.mono (by simp [blockIdentifiers]) (by simp [blockSubexpressions])⟩

theorem Block.readable_cons {s : Statement} {b : Block} (hs : s.Readable depth)
    (hb : Block.Readable depth b) : Block.Readable depth (s :: b) := by
  intro b' hb' rest rest' hrest hrest' h
  cases b' with
  | nil =>
    obtain ⟨text, htext⟩ := s.exists_lead_eq depth
    simp only [printBlock, String.toList_append, htext, List.append_assoc, List.cons_append] at h
    exact absurd h.symm (hrest' _ _)
  | cons s' b' =>
    have hprint (s : Statement) (b : Block) (rest : List Char) :
        (printBlock depth (s :: b)).toList ++ rest =
          (indentation depth).toList ++
            ((s.print depth).toList ++ '\n' :: ((printBlock depth b).toList ++ rest)) := by
      simp [printBlock]
    obtain ⟨hs', hb'⟩ := Block.isPrintable_cons hb'
    rw [hprint, hprint] at h
    obtain ⟨hs, h⟩ := hs s' hs' _ _ (List.append_cancel_left h)
    obtain ⟨hb, h⟩ := hb b' hb' rest rest' hrest hrest' h
    exact ⟨by rw [relabelStatements, relabelStatements, hs, hb], h⟩

end

namespace Statement

theorem lead_eq_of_print_append {s s' : Statement} {depth : Nat} {rest rest' : List Char}
    (h : (s.print depth).toList ++ rest = (s'.print depth).toList ++ rest') : s.lead = s'.lead := by
  obtain ⟨text, htext⟩ := s.exists_lead_eq depth
  obtain ⟨text', htext'⟩ := s'.exists_lead_eq depth
  rw [htext, htext'] at h
  exact (List.cons.inj h).1

variable {depth : Nat}

theorem readable_expression {value : Expr} (hvalue : value.Readable) :
    (expression value).Readable depth := by
  intro s' h' rest rest' heq
  have hlead := lead_eq_of_print_append heq
  have hprint (value : Expr) (rest : List Char) :
      ((expression value).print depth).toList ++ rest = value.print.toList ++ ';' :: rest := by
    simp [print]
  cases s' with
  | «return» | conditional | declaration => simp [lead] at hlead
  | expression value' =>
    rw [hprint, hprint] at heq
    obtain ⟨hv, heq⟩ := hvalue value' h' _ _ heq
    exact ⟨by rw [relabel, relabel, hv], (List.cons.inj (List.cons.inj heq).2).2⟩

theorem readable_return {value : Expr} (hvalue : value.Readable) :
    (Statement.return value).Readable depth := by
  intro s' h' rest rest' heq
  have hlead := lead_eq_of_print_append heq
  have hprint (value : Expr) (rest : List Char) :
      ((Statement.return value).print depth).toList ++ rest =
        "return ".toList ++ (value.print.toList ++ ';' :: rest) := by
    simp [print]
  cases s' with
  | expression | conditional | declaration => simp [lead] at hlead
  | «return» value' =>
    rw [hprint, hprint] at heq
    obtain ⟨hv, heq⟩ := hvalue value' h' _ _ (List.append_cancel_left heq)
    exact ⟨by rw [relabel, relabel, hv], (List.cons.inj (List.cons.inj heq).2).2⟩

def printAlternative (depth : Nat) : Option Block → String
  | none => ""
  | some b => " else " ++ printBraced depth (printBlock (depth + 1) b)

theorem print_conditional_append (condition : Expr) (consequent : Block)
    (alternative : Option Block) (rest : List Char) :
    ((conditional condition consequent alternative).print depth).toList ++ rest =
      "if ".toList ++ (condition.print.toList ++
        ' ' :: ((printBraced depth (printBlock (depth + 1) consequent)).toList ++
          ((printAlternative depth alternative).toList ++ rest))) := by
  cases alternative <;> simp [print, printAlternative]

theorem relabel_conditional (f : Identifier → Identifier) (condition : Expr) (consequent : Block)
    (alternative : Option Block) :
    (conditional condition consequent alternative).relabel f =
      .conditional (condition.relabel f) (relabelStatements f consequent)
        (alternative.map (relabelStatements f)) := by
  cases alternative <;> rfl

theorem printAlternative_append_inj {alternative alternative' : Option Block}
    (h : ∀ b ∈ alternative, Block.Readable (depth + 1) b)
    (h' : ∀ b ∈ alternative', b.IsPrintable) {rest rest' : List Char}
    (heq : (printAlternative depth alternative).toList ++ '\n' :: rest =
      (printAlternative depth alternative').toList ++ '\n' :: rest') :
    alternative.map (relabelStatements Identifier.shown) =
      alternative'.map (relabelStatements Identifier.shown) ∧ rest = rest' := by
  have hsome (b : Block) (rest : List Char) : (printAlternative depth (some b)).toList ++ rest =
      ' ' :: ("else ".toList ++
        ((printBraced depth (printBlock (depth + 1) b)).toList ++ rest)) := by
    simp [printAlternative]
  cases alternative with
  | none =>
    cases alternative' with
    | none => exact ⟨rfl, (List.cons.inj heq).2⟩
    | some b' =>
      rw [hsome] at heq
      exact absurd (List.cons.inj heq).1 (by decide)
  | some b =>
    cases alternative' with
    | none =>
      rw [hsome] at heq
      exact absurd (List.cons.inj heq).1 (by decide)
    | some b' =>
      rw [hsome, hsome] at heq
      obtain ⟨hb, heq⟩ := braced_append_inj (h b rfl) (h' b' rfl)
        (List.append_cancel_left (List.cons.inj heq).2)
      exact ⟨by rw [Option.map_some, Option.map_some, hb], (List.cons.inj heq).2⟩

theorem isPrintable_conditional {condition : Expr} {consequent : Block}
    {alternative : Option Block}
    (h : (conditional condition consequent alternative).IsPrintable) :
    condition.IsPrintable ∧ consequent.IsPrintable ∧ ∀ b ∈ alternative, b.IsPrintable := by
  cases alternative with
  | none =>
    refine ⟨?_, ?_, by simp⟩
    · exact h.mono (by simp [identifiers]) (by simp [subexpressions])
    · exact h.mono (by simp [identifiers]) (by simp [subexpressions])
  | some alternative =>
    refine ⟨?_, ?_, ?_⟩
    · exact h.mono (by simp [identifiers]) (by simp [subexpressions])
    · exact h.mono (by simp [identifiers]) (by simp [subexpressions])
    · rintro b ⟨⟩
      exact h.mono (by simp [identifiers]) (by simp [subexpressions])

theorem readable_conditional {condition : Expr} {consequent : Block} {alternative : Option Block}
    (hcondition : condition.Readable) (hconsequent : Block.Readable (depth + 1) consequent)
    (halternative : ∀ b ∈ alternative, Block.Readable (depth + 1) b) :
    (conditional condition consequent alternative).Readable depth := by
  intro s' h' rest rest' heq
  have hlead := lead_eq_of_print_append heq
  cases s' with
  | expression | «return» | declaration => simp [lead] at hlead
  | conditional condition' consequent' alternative' =>
    obtain ⟨hcondition', hconsequent', halternative'⟩ := isPrintable_conditional h'
    rw [print_conditional_append, print_conditional_append] at heq
    obtain ⟨hc, heq⟩ := hcondition condition' hcondition' _ _ (List.append_cancel_left heq)
    obtain ⟨hb, heq⟩ := braced_append_inj hconsequent hconsequent' (List.cons.inj heq).2
    obtain ⟨ha, heq⟩ := printAlternative_append_inj halternative halternative' heq
    exact ⟨by rw [relabel_conditional, relabel_conditional, hc, hb, ha], heq⟩

theorem readable_declaration {d : Declaration} (hd : d.Readable depth) :
    (declaration d).Readable depth := by
  intro s' h' rest rest' heq
  have hlead := lead_eq_of_print_append heq
  cases s' with
  | expression | «return» | conditional => simp [lead] at hlead
  | declaration d' =>
    obtain ⟨hd, heq⟩ := hd d' h' _ _ heq
    exact ⟨by rw [relabel, relabel, hd], (List.cons.inj heq).2⟩

end Statement

namespace Declaration

variable {depth : Nat}

theorem print_class_append (name : Identifier) (body : Block) (rest : List Char) :
    ((Declaration.class name body).print depth).toList ++ rest =
      "\\class\x7b".toList ++ (name.print.toList ++
        '\x7d' :: ((printBraced depth (printBlock (depth + 1) body)).toList ++ rest)) := by
  simp [print]

theorem print_function_append (name : Identifier) (parameters : List Identifier) (body : Block)
    (rest : List Char) :
    ((function name parameters body).print depth).toList ++ rest =
      "\\fun\x7b".toList ++ (name.print.toList ++
        '\x7d' :: ((printParameters parameters).toList ++
          ((printBraced depth (printBlock (depth + 1) body)).toList ++ rest))) := by
  simp [print]

theorem print_method_append (owner name : Identifier) (parameters : List Identifier) (body : Block)
    (rest : List Char) :
    ((method owner name parameters body).print depth).toList ++ rest =
      "\\fun\x7b".toList ++ (owner.print.toList ++ ':' :: ':' :: (name.print.toList ++
        '\x7d' :: ((printParameters parameters).toList ++
          ((printBraced depth (printBlock (depth + 1) body)).toList ++ rest)))) := by
  simp [print]

theorem isPrintable_class {name : Identifier} {body : Block}
    (h : (Declaration.class name body).IsPrintable) : isName name.name ∧ body.IsPrintable :=
  ⟨h.isName name (by simp [identifiers]),
    h.mono (by simp [identifiers]) (by simp [subexpressions])⟩

theorem isPrintable_function {name : Identifier} {parameters : List Identifier} {body : Block}
    (h : (function name parameters body).IsPrintable) :
    isName name.name ∧ (∀ x ∈ parameters, isName x.name) ∧ body.IsPrintable :=
  ⟨h.isName name (by simp [identifiers]), fun x hx => h.isName x (by simp [identifiers, hx]),
    h.mono (by simp [identifiers]) (by simp [subexpressions])⟩

theorem isPrintable_method {owner name : Identifier} {parameters : List Identifier} {body : Block}
    (h : (method owner name parameters body).IsPrintable) :
    isName owner.name ∧ isName name.name ∧ (∀ x ∈ parameters, isName x.name) ∧
      body.IsPrintable :=
  ⟨h.isName owner (by simp [identifiers]), h.isName name (by simp [identifiers]),
    fun x hx => h.isName x (by simp [identifiers, hx]),
    h.mono (fun x hx => by simp [identifiers, hx]) (by simp [subexpressions])⟩

theorem readable_class {name : Identifier} {body : Block} (hname : isName name.name)
    (hbody : Block.Readable (depth + 1) body) : (Declaration.class name body).Readable depth := by
  intro d' h' rest rest' heq
  cases d' with
  | «class» name' body' =>
    obtain ⟨hname', hbody'⟩ := isPrintable_class h'
    rw [print_class_append, print_class_append] at heq
    obtain ⟨hn, heq⟩ := Identifier.shown_eq_of_print_append hname hname' rfl rfl
      (List.append_cancel_left heq)
    obtain ⟨hb, heq⟩ := braced_append_inj hbody hbody' (List.cons.inj heq).2
    exact ⟨by rw [relabel, relabel, hn, hb], heq⟩
  | function name' parameters' body' =>
    rw [print_class_append, print_function_append] at heq
    exact absurd (List.cons.inj (List.cons.inj heq).2).1 (by decide)
  | method owner' name' parameters' body' =>
    rw [print_class_append, print_method_append] at heq
    exact absurd (List.cons.inj (List.cons.inj heq).2).1 (by decide)

theorem readable_function {name : Identifier} {parameters : List Identifier} {body : Block}
    (hname : isName name.name) (hparameters : ∀ x ∈ parameters, isName x.name)
    (hbody : Block.Readable (depth + 1) body) : (function name parameters body).Readable depth := by
  intro d' h' rest rest' heq
  cases d' with
  | «class» name' body' =>
    rw [print_function_append, print_class_append] at heq
    exact absurd (List.cons.inj (List.cons.inj heq).2).1 (by decide)
  | function name' parameters' body' =>
    obtain ⟨hname', hparameters', hbody'⟩ := isPrintable_function h'
    rw [print_function_append, print_function_append] at heq
    obtain ⟨hn, heq⟩ := Identifier.shown_eq_of_print_append hname hname' rfl rfl
      (List.append_cancel_left heq)
    obtain ⟨hp, heq⟩ := parameters_append_inj hparameters hparameters' (List.cons.inj heq).2
    obtain ⟨hb, heq⟩ := braced_append_inj hbody hbody' heq
    exact ⟨by rw [relabel, relabel, hn, hp, hb], heq⟩
  | method owner' name' parameters' body' =>
    -- Only the character after the first name tells a function from a method.
    rw [print_function_append, print_method_append] at heq
    obtain ⟨-, heq⟩ := Identifier.shown_eq_of_print_append hname (isPrintable_method h').1 rfl rfl
      (List.append_cancel_left heq)
    exact absurd (List.cons.inj heq).1 (by decide)

theorem readable_method {owner name : Identifier} {parameters : List Identifier} {body : Block}
    (howner : isName owner.name) (hname : isName name.name)
    (hparameters : ∀ x ∈ parameters, isName x.name) (hbody : Block.Readable (depth + 1) body) :
    (method owner name parameters body).Readable depth := by
  intro d' h' rest rest' heq
  cases d' with
  | «class» name' body' =>
    rw [print_method_append, print_class_append] at heq
    exact absurd (List.cons.inj (List.cons.inj heq).2).1 (by decide)
  | function name' parameters' body' =>
    rw [print_method_append, print_function_append] at heq
    obtain ⟨-, heq⟩ := Identifier.shown_eq_of_print_append howner (isPrintable_function h').1
      rfl rfl (List.append_cancel_left heq)
    exact absurd (List.cons.inj heq).1 (by decide)
  | method owner' name' parameters' body' =>
    obtain ⟨howner', hname', hparameters', hbody'⟩ := isPrintable_method h'
    rw [print_method_append, print_method_append] at heq
    obtain ⟨ho, heq⟩ := Identifier.shown_eq_of_print_append howner howner' rfl rfl
      (List.append_cancel_left heq)
    obtain ⟨hn, heq⟩ := Identifier.shown_eq_of_print_append hname hname' rfl rfl
      (List.cons.inj (List.cons.inj heq).2).2
    obtain ⟨hp, heq⟩ := parameters_append_inj hparameters hparameters' (List.cons.inj heq).2
    obtain ⟨hb, heq⟩ := braced_append_inj hbody hbody' heq
    exact ⟨by rw [relabel, relabel, ho, hn, hp, hb], heq⟩

end Declaration

mutual

theorem Statement.readable (depth : Nat) (s : Statement) (h : s.IsPrintable) :
    s.Readable depth := by
  match s with
  | .expression value => exact Statement.readable_expression (value.readable h)
  | .return value => exact Statement.readable_return (value.readable h)
  | .conditional condition consequent none =>
    obtain ⟨hcondition, hconsequent, -⟩ := Statement.isPrintable_conditional h
    exact Statement.readable_conditional (condition.readable hcondition)
      (Block.readable (depth + 1) consequent hconsequent) (by simp)
  | .conditional condition consequent (some alternative) =>
    obtain ⟨hcondition, hconsequent, halternative⟩ := Statement.isPrintable_conditional h
    refine Statement.readable_conditional (condition.readable hcondition)
      (Block.readable (depth + 1) consequent hconsequent) ?_
    rintro b ⟨⟩
    exact Block.readable (depth + 1) alternative (halternative alternative rfl)
  | .declaration d => exact Statement.readable_declaration (d.readable depth h)

theorem Declaration.readable (depth : Nat) (d : Declaration) (h : d.IsPrintable) :
    d.Readable depth := by
  match d with
  | .class name body =>
    obtain ⟨hname, hbody⟩ := Declaration.isPrintable_class h
    exact Declaration.readable_class hname (Block.readable (depth + 1) body hbody)
  | .function name parameters body =>
    obtain ⟨hname, hparameters, hbody⟩ := Declaration.isPrintable_function h
    exact Declaration.readable_function hname hparameters (Block.readable (depth + 1) body hbody)
  | .method owner name parameters body =>
    obtain ⟨howner, hname, hparameters, hbody⟩ := Declaration.isPrintable_method h
    exact Declaration.readable_method howner hname hparameters
      (Block.readable (depth + 1) body hbody)

theorem Block.readable (depth : Nat) (b : List Statement) (h : Block.IsPrintable b) :
    Block.Readable depth b := by
  match b with
  | [] => exact Block.readable_nil
  | s :: b =>
    obtain ⟨hs, hb⟩ := Block.isPrintable_cons h
    exact Block.readable_cons (s.readable depth hs) (Block.readable depth b hb)

end

def Block.shown (b : Block) : Block :=
  relabelStatements Identifier.shown b

/-- The printed form of a block determines what it shows of the block, and nothing else. -/
theorem Block.print_eq_iff_shown_eq {b c : Block} (hb : b.IsPrintable) (hc : c.IsPrintable) :
    b.print = c.print ↔ b.shown = c.shown := by
  constructor
  · intro h
    have hend : EndsBlock 0 [] := by
      intro x rest
      simp
    have htext : (printBlock 0 b).toList ++ [] = (printBlock 0 c).toList ++ [] :=
      congrArg (String.toList · ++ []) h
    exact (Block.readable 0 b hb c hc [] [] hend hend htext).1
  · intro h
    have hshown (b : Block) : b.shown.print = b.print :=
      printBlock_relabel 0 b fun x _ => x.print_shown
    rw [← hshown b, h, hshown c]

/--
Some identifiers are resolved and others are not, and a string looks like the rest of a printed
tree. With the id 6:
```
\fun{<f:5;5-6>}{x, <y:6;11-12>}{
    if (<y:6;16-17>) {
        (z := ("\");\n    (<z:7;1-2>"));
    } else {
        return ((x)((1.5), (-0)));
    }
}
```
-/
def imitatingProgram (place : Span) (id : Nat) : Block :=
  let x : Identifier := { name := "x", span := place }
  [.declaration (.function ⟨"f", some 5, ⟨5, 6⟩⟩ [x, ⟨"y", some id, ⟨11, 12⟩⟩]
    [.conditional (.identifier ⟨"y", some id, ⟨16, 17⟩⟩)
      [.expression (.declare { name := "z" } (.string "\");\n    (<z:7;1-2>"))]
      (some [.return (.call (.identifier x)
        [.number ⟨0x3ff8000000000000⟩, .number ⟨0x8000000000000000⟩])])])]

theorem isPrintable_imitatingProgram (place : Span) (id : Nat) :
    (imitatingProgram place id).IsPrintable where
  isName := by
    simp only [imitatingProgram, blockIdentifiers, Statement.identifiers, Declaration.identifiers,
      Expr.identifiers, Expr.identifiersList, List.cons_append, List.nil_append, List.append_nil,
      List.forall_mem_cons]
    decide +kernel
  isFinite := by
    intro value h
    simp [imitatingProgram, blockSubexpressions, Statement.subexpressions,
      Declaration.subexpressions, Expr.subexpressions, Expr.subexpressionsList] at h
    obtain rfl | rfl := h <;> rfl

theorem Block.print_imitatingProgram :
    (imitatingProgram ⟨8, 9⟩ 6).IsPrintable ∧ (imitatingProgram ⟨0, 0⟩ 6).IsPrintable ∧
      (imitatingProgram ⟨8, 9⟩ 7).IsPrintable ∧
      (imitatingProgram ⟨8, 9⟩ 6).print = (imitatingProgram ⟨0, 0⟩ 6).print ∧
      (imitatingProgram ⟨8, 9⟩ 6).print ≠ (imitatingProgram ⟨8, 9⟩ 7).print := by
  have hprintable := isPrintable_imitatingProgram
  have hshown : (imitatingProgram ⟨8, 9⟩ 6).shown ≠ (imitatingProgram ⟨8, 9⟩ 7).shown := by
    intro h
    have hids := congrArg (fun b => (blockIdentifiers b).map Identifier.id) h
    revert hids
    decide +kernel
  refine ⟨hprintable _ _, hprintable _ _, hprintable _ _, ?_, ?_⟩
  · exact (Block.print_eq_iff_shown_eq (hprintable _ _) (hprintable _ _)).2 rfl
  · exact mt (Block.print_eq_iff_shown_eq (hprintable _ _) (hprintable _ _)).1 hshown

end LiterateFun
