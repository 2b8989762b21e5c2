import LiterateFun.Proofs.Lowering.Histories
import LiterateFun.Proofs.Naming.Occurrences

/-!
This module contains the variables in the scripts of a history. A generator looks for the bindings
of `:=` once, before its first script. The variables of these bindings have their own texts in every
later script, and the variables of bindings that are added afterwards have their names only.
-/

namespace LiterateFun

open Lowering Script Resolution Resolution.Session

namespace Identifier

variable {known : List Nat} {x y : Identifier}

/-- The id of `x` is not known, and its name looks like that of `y` with its id. -/
def Resembles (known : List Nat) (x y : Identifier) : Prop :=
  ¬x.IsNumbered known ∧ ∃ id ∈ known, y.id = some id ∧ x.name = y.name ++ "_" ++ Text.decimal id

theorem resembles_iff (hx : ¬x.IsNumbered known) (hy : y.IsNumbered known) :
    x.Resembles known y ↔ x.spelling known = y.spelling known := by
  obtain ⟨id, hid, hyid⟩ := isNumbered_iff.1 hy
  rw [spelling_of_not_isNumbered hx, spelling_of_mem hyid hid]
  constructor
  · rintro ⟨-, id', -, hyid', hname⟩
    rw [hname, Option.some.inj (hyid.symm.trans hyid')]
  · exact fun h => ⟨hx, id, hid, hyid, spell_injective h⟩

theorem Resembles.isNumbered (h : x.Resembles known y) : y.IsNumbered known :=
  have ⟨_, id, hid, hyid, _⟩ := h
  isNumbered_iff.2 ⟨id, hid, hyid⟩

theorem spelling_eq_iff (hid : x.id ≠ y.id) :
    x.spelling known = y.spelling known ↔
      (¬x.IsNumbered known ∧ ¬y.IsNumbered known ∧ x.name = y.name) ∨
        x.Resembles known y ∨ y.Resembles known x := by
  by_cases hx : x.IsNumbered known
  · have hnot : ¬x.Resembles known y := fun h => h.1 hx
    by_cases hy : y.IsNumbered known
    · have hnot' : ¬y.Resembles known x := fun h => h.1 hy
      simp only [hx, hnot, hnot', not_true_eq_false, false_and, or_false, iff_false]
      exact fun h => hid (hx.id_eq hy h)
    · simp only [hx, hnot, not_true_eq_false, false_and, false_or, resembles_iff hy hx]
      exact eq_comm
  · have hnot : ¬y.Resembles known x := fun h => hx h.isNumbered
    by_cases hy : y.IsNumbered known
    · simp only [hy, hnot, not_true_eq_false, false_and, and_false, or_false, false_or,
        resembles_iff hx hy]
    · have hnot' : ¬x.Resembles known y := fun h => hy h.isNumbered
      simp only [hx, hy, hnot, hnot', not_false_eq_true, true_and, or_false,
        spelling_of_not_isNumbered hx, spelling_of_not_isNumbered hy]
      exact ⟨spell_injective, congrArg spell⟩

end Identifier

/--
A script has the variables of some parts of a program. The bindings of the `:=` in the parts that
came first are known.
-/
structure WritesBindings (known : List Nat) (first parts : Block)
    (script : List Script.Statement) : Prop where
  /-- The script uses exactly the variables that the expressions of the parts mention. -/
  used : (Script.usedVariables script).Perm
    (((blockSubexpressions parts).flatMap Expr.mentions).map fun x => x.variable known)
  /-- The script declares variables of `:=` only. -/
  declared : Script.declaredVariables script ⊆
    (introducedIn (blockSubexpressions parts)).map fun x => x.variable known
  /-- The occurrences of bindings of the first `:=` have their id in their text. -/
  numbered : ∀ x ∈ occurrencesIn (blockSubexpressions parts),
    x.IsNumbered known ↔ ∃ y ∈ introducedIn (blockSubexpressions first), y.id = x.id
  /-- Different bindings share a text if both are not known and they have the same name, or if the
  name of one that is not known looks like the text of the other one. -/
  shared : ∀ x ∈ occurrencesIn (blockSubexpressions parts),
    ∀ y ∈ occurrencesIn (blockSubexpressions parts), x.id ≠ y.id →
      (x.spelling known = y.spelling known ↔
        (¬x.IsNumbered known ∧ ¬y.IsNumbered known ∧ x.name = y.name) ∨
          x.Resembles known y ∨ y.Resembles known x)

namespace Generator

variable {g : Generator} {globals : List (String × Nat)} {b : Block} {added : List Statement}

theorem declaredIds_eq (g : Generator) : g.declaredIds = blockDeclaredIds g.parts := by
  rw [blockDeclaredIds_eq_flatMap, parts, List.flatMap_append, List.flatMap_map]
  rfl

theorem IsFrom.isNumbered_iff (h : g.IsFrom added) (hb : Resolved globals b)
    (hadded : added ⊆ blockSubstatements b) (x : Identifier) :
    x.IsNumbered g.declaredIds ↔
      ∃ y ∈ introducedIn (blockSubexpressions g.parts), y.id = x.id := by
  rw [Identifier.isNumbered_iff, hb.exists_introduced_iff (h.contains_parts hadded).1,
    declaredIds_eq, blockDeclaredIds_eq _ (h.assignable hb hadded)]

theorem IsFrom.writesBindings {first : Generator} (hfirst : first.IsFrom added)
    (h : g.IsFrom added) (hb : Resolved globals b) (hadded : added ⊆ blockSubstatements b)
    (hknown : g.knownIds = first.declaredIds) :
    WritesBindings first.declaredIds first.parts g.parts g.script.1 := by
  constructor
  · have hperm := h.transfers_script hb hadded (transfers_usedVariables _)
    rwa [flatMap_blockRoots, ← List.map_flatMap, hknown] at hperm
  · have hsubset := h.transfers_script hb hadded (transfers_declaredVariables _)
    rwa [flatMap_blockRoots, ← List.map_flatMap, ← List.filterMap_eq_flatMap_toList, hknown]
      at hsubset
  · exact fun x _ => hfirst.isNumbered_iff hb hadded x
  · exact fun x _ y _ hid => Identifier.spelling_eq_iff hid

theorem namesAll_script {P : String → Prop} (h : ∀ x ∈ blockIdentifiers g.parts, P x.name) :
    namesAll P g.script.1 := by
  simp only [parts, blockIdentifiers_eq_flatMap, List.flatMap_append, List.flatMap_map,
    List.forall_mem_append, List.forall_mem_flatMap] at h
  refine namesAll_append.2 ⟨Piece.namesAll_arrange ?_, namesAll_lowerStatements _ _ ?_ _⟩
  · exact List.forall_mem_map.2 fun d hd => d.namesAll_lower _ (h.1 d hd)
  · rw [blockIdentifiers_eq_flatMap, List.forall_mem_flatMap]
    exact h.2

theorem beforeScripts_subset (history : List Action) :
    (beforeScripts history).flatMap Action.statements ⊆ history.flatMap Action.statements := by
  intro st hst
  obtain ⟨a, ha, hst⟩ := List.mem_flatMap.1 hst
  exact List.mem_flatMap.2 ⟨a, (List.takeWhile_sublist _).subset ha, hst⟩

/--
After any calls with statements of a resolved block, a generator writes a script with the variables
of what was added. The known bindings are those of what was added in front of the first script.
-/
theorem writesBindings_of_history {s : Session} {b : Block} (hs : s.Reachable)
    (hnone : (s.resolve b).2.2 = none) (history : List Action)
    (hhistory : history.flatMap Action.statements ⊆ blockSubstatements (s.resolve b).1) :
    ∃ first g, ({} : Generator).performAll? (beforeScripts history) = some first ∧
      ({} : Generator).performAll? history = some g ∧
      (∀ st, st ∈ first.parts ↔
        Remains ((beforeScripts history).flatMap Action.statements) st) ∧
      (∀ st, st ∈ g.parts ↔ Remains (history.flatMap Action.statements) st) ∧
      g.generate? = some (Script.text g.script.1, g.script.2) ∧
      ((∀ x ∈ blockIdentifiers g.parts, IsPlain x.name) →
        Shows [] (Script.text g.script.1) g.script.1) ∧
      WritesBindings first.declaredIds first.parts g.parts g.script.1 := by
  have hb := resolved_resolve hs hnone
  have hempty := IsFrom.empty (history.flatMap Action.statements)
  obtain ⟨g, hg, hfrom⟩ := hempty.performAll? hb hhistory (List.Subset.refl _)
  obtain ⟨first, hfirst, hknown⟩ := exists_beforeScripts rfl hg
  obtain ⟨first', hfirst', hfromFirst⟩ :=
    hempty.performAll? hb hhistory (beforeScripts_subset history)
  obtain rfl : first' = first := Option.some.inj (hfirst'.symm.trans hfirst)
  exact ⟨first', g, hfirst, hg, fun st => mem_parts_iff hfirst, fun st => mem_parts_iff hg,
    hfrom.generate?_eq hb hhistory, fun hplain => shows_text (namesAll_script hplain),
    hfromFirst.writesBindings hfrom hb hhistory hknown⟩

def resumedHistory (b : Block) : List Action :=
  (b.take 1).map .add ++ .generate :: (b.drop 1).map .add

theorem statements_resumedHistory (b : Block) :
    (resumedHistory b).flatMap Action.statements = b := by
  have hadd (sts : List Statement) : (sts.map Action.add).flatMap Action.statements = sts := by
    rw [List.flatMap_map]
    exact List.flatMap_singleton' sts
  rw [resumedHistory, List.flatMap_append, List.flatMap_cons, hadd, hadd]
  exact List.take_append_drop 1 b

open Identifier in
def reboundProgram : Block :=
  [.expression (.declare (placed "x" 0) (.string "a")),
    .expression (.declare (placed "y" 10) (.identifier (placed "x" 15))),
    .expression (.declare (placed "y" 18) (.string "b")),
    .expression (.identifier (placed "y" 28))]

def resolvedReboundProgram : Block :=
  ((withBuiltins Prelude.builtins).resolve reboundProgram).1

theorem resolve_reboundProgram :
    ((withBuiltins Prelude.builtins).resolve reboundProgram).2.2 = none := by
  decide +kernel

theorem writesBindings_resumedHistory :
    ∃ first g : Generator,
      ({} : Generator).performAll? (resumedHistory resolvedReboundProgram) = some g ∧
      Shows [] (Script.text g.script.1) g.script.1 ∧
      WritesBindings first.declaredIds first.parts g.parts g.script.1 ∧
      first.declaredIds = [5] ∧
      (occurrencesIn (blockSubexpressions g.parts)).map Identifier.id =
        [some 5, some 6, some 5, some 7, some 7] := by
  have hfirst : (({} : Generator).performAll?
      (beforeScripts (resumedHistory resolvedReboundProgram))).all
        fun first => first.declaredIds = [5] := by
    decide +kernel
  have hoccurrences : (({} : Generator).performAll? (resumedHistory resolvedReboundProgram)).all
      fun g => (occurrencesIn (blockSubexpressions g.parts)).map Identifier.id =
        [some 5, some 6, some 5, some 7, some 7] := by
    decide +kernel
  have hplain : (({} : Generator).performAll? (resumedHistory resolvedReboundProgram)).all
      fun g : Generator => ∀ x ∈ blockIdentifiers g.parts, IsPlain x.name := by
    decide +kernel
  obtain ⟨first, g, hfirst', hg, -, -, -, hshows, hwrites⟩ :=
    writesBindings_of_history (.withBuiltins _) resolve_reboundProgram
      (resumedHistory resolvedReboundProgram) (by
        rw [statements_resumedHistory]
        exact subset_blockSubstatements _)
  rw [hfirst', Option.all_some, decide_eq_true_eq] at hfirst
  rw [hg, Option.all_some, decide_eq_true_eq] at hoccurrences hplain
  exact ⟨first, g, hg, hshows hplain, hwrites, hfirst, hoccurrences⟩

def SeparatesBindings (program : Block) (g : Generator) : Prop :=
  ∀ x ∈ occurrencesIn (blockSubexpressions g.parts),
    ∀ y ∈ occurrencesIn (blockSubexpressions g.parts),
      (∃ z ∈ introducedIn (blockSubexpressions program), z.id = x.id) →
        (∃ z ∈ introducedIn (blockSubexpressions program), z.id = y.id) →
          x.id ≠ y.id → x.spelling g.knownIds ≠ y.spelling g.knownIds

instance (program : Block) (g : Generator) : Decidable (SeparatesBindings program g) :=
  inferInstanceAs (Decidable (∀ x ∈ occurrencesIn (blockSubexpressions g.parts),
    ∀ y ∈ occurrencesIn (blockSubexpressions g.parts),
      (∃ z ∈ introducedIn (blockSubexpressions program), z.id = x.id) →
        (∃ z ∈ introducedIn (blockSubexpressions program), z.id = y.id) →
          x.id ≠ y.id → x.spelling g.knownIds ≠ y.spelling g.knownIds))

theorem not_separatesBindings_resumedHistory :
    ∃ g, ({} : Generator).performAll? (resumedHistory resolvedReboundProgram) = some g ∧
      g.generate?.map Prod.fst = some ("FUN_x_5 = \"a\";\nFUN_x_5;\n" ++
        "let FUN_y;\nFUN_y = FUN_x_5;\nFUN_y;\nFUN_y = \"b\";\nFUN_y;\nFUN_y;\n") ∧
      ¬SeparatesBindings resolvedReboundProgram g := by
  have hrun : (({} : Generator).performAll? (resumedHistory resolvedReboundProgram)).any fun g =>
      g.generate?.map Prod.fst = some ("FUN_x_5 = \"a\";\nFUN_x_5;\n" ++
        "let FUN_y;\nFUN_y = FUN_x_5;\nFUN_y;\nFUN_y = \"b\";\nFUN_y;\nFUN_y;\n") ∧
      ¬SeparatesBindings resolvedReboundProgram g := by
    decide +kernel
  obtain ⟨g, hg, h⟩ := (Option.any_eq_true _ _).1 hrun
  exact ⟨g, hg, of_decide_eq_true h⟩

end Generator

end LiterateFun
