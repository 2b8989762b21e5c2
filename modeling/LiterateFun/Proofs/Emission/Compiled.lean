import LiterateFun.Proofs.Documents.References
import LiterateFun.Proofs.Emission.Block
import LiterateFun.Proofs.Emission.Newlines
import LiterateFun.Proofs.Naming.Compiled
import LiterateFun.Proofs.Naming.References

/-!
This module contains the parts of compiled programs and documents. None of them is lost in the code
and none is there twice, and each stands in the scope of its block.
-/

namespace LiterateFun

open Outline Resolution Resolution.Session

mutual

def Statement.substatements : Statement → List Statement
  | .expression value => [.expression value]
  | .return value => [.return value]
  | .conditional condition consequent none =>
    .conditional condition consequent none :: blockSubstatements consequent
  | .conditional condition consequent (some alternative) =>
    .conditional condition consequent (some alternative) ::
      (blockSubstatements consequent ++ blockSubstatements alternative)
  | .declaration d => .declaration d :: d.substatements

def Declaration.substatements : Declaration → List Statement
  | .class _ body => blockSubstatements body
  | .function _ _ body => blockSubstatements body
  | .method _ _ _ body => blockSubstatements body

def blockSubstatements : List Statement → List Statement
  | [] => []
  | s :: b => s.substatements ++ blockSubstatements b

end

def Expr.lineKind? : Expr → Option LineKind
  | .binary .. => some .temporary
  | .call .. => some .temporary
  | .declare .. => some .variable
  | _ => none

def Declaration.lineKind : Declaration → LineKind
  | .class .. => .constructor
  | .function .. => .function
  | .method .. => .method

def Statement.lineKind? : Statement → Option LineKind
  | .return _ => some .return
  | .declaration d => some d.lineKind
  | _ => none

def Expr.introduced? : Expr → Option Identifier
  | .declare x _ => some x
  | _ => none

/-- The lines of a script have every part of a block once, and each in the scope of its block. -/
structure KeepsParts (b : Block) (lines : List String) : Prop where
  /-- There are as many lines of a kind as parts, at any depth, that have such a line. -/
  counts : ∀ kind, lines.countP (fun line => LineKind.ofLine? line = some kind) =
    (blockSubexpressions b).countP (fun e => e.lineKind? = some kind) +
      (blockSubstatements b).countP (fun st => st.lineKind? = some kind)
  /-- Every `:=` has a binding, which is that of no other `:=`. -/
  bindings : (((blockSubexpressions b).filterMap Expr.introduced?).map Identifier.id).Nodup ∧
    ∀ x ∈ (blockSubexpressions b).filterMap Expr.introduced?, x.id ≠ none
  /-- The scopes of the lines have what stands directly in the blocks. -/
  scopes : Same (b.outline .plain) (ofLines lines)

section

variable (kind : LineKind)

mutual

theorem Expr.countP_features (e : Expr) : e.features.countP (fun f => f.kind = kind) =
    e.subexpressions.countP fun e => e.lineKind? = some kind := by
  match e with
  | .string value => rfl
  | .number value => rfl
  | .identifier x => rfl
  | .binary op left right =>
    have hkind : (Expr.binary op left right).lineKind? = some .temporary := rfl
    have hleft := left.countP_features
    have hright := right.countP_features
    simp only [Expr.features, Expr.subexpressions, List.countP_append, List.countP_cons,
      List.countP_nil, hkind, Option.some.injEq]
    omega
  | .call callee arguments =>
    have hkind : (Expr.call callee arguments).lineKind? = some .temporary := rfl
    have hcallee := callee.countP_features
    have harguments := Expr.countP_featuresList arguments
    simp only [Expr.features, Expr.subexpressions, List.countP_append, List.countP_cons,
      List.countP_nil, hkind, Option.some.injEq]
    omega
  | .assign target value =>
    simp [Expr.features, Expr.subexpressions, Expr.lineKind?, target.countP_features,
      value.countP_features]
  | .declare x value =>
    simp [Expr.features, Expr.subexpressions, Expr.lineKind?, List.countP_cons,
      value.countP_features, Identifier.feature, Feature.ofVariable]

theorem Expr.countP_featuresList (es : List Expr) :
    (Expr.featuresList es).countP (fun f => f.kind = kind) =
      (Expr.subexpressionsList es).countP fun e => e.lineKind? = some kind := by
  match es with
  | [] => rfl
  | e :: es =>
    rw [Expr.featuresList, Expr.subexpressionsList, List.countP_append, List.countP_append,
      e.countP_features, Expr.countP_featuresList es]

end

theorem Declaration.kind_feature (d : Declaration) : d.feature.kind = d.lineKind := by
  cases d <;> rfl

mutual

theorem Statement.count_outlines (st : Statement) :
    st.features.countP (fun f => f.kind = kind) + countIn kind st.outlines =
      st.subexpressions.countP (fun e => e.lineKind? = some kind) +
        st.substatements.countP fun st => st.lineKind? = some kind := by
  match st with
  | .expression value =>
    simp [Statement.features, Statement.outlines, Statement.subexpressions, Statement.substatements,
      Statement.lineKind?, value.countP_features, countIn]
  | .return value =>
    simp [Statement.features, Statement.outlines, Statement.subexpressions, Statement.substatements,
      Statement.lineKind?, value.countP_features, countIn, List.countP_cons]
  | .conditional condition consequent none =>
    have hkind : (Statement.conditional condition consequent none).lineKind? = none := rfl
    have hcondition := condition.countP_features kind
    have hconsequent := count_blockOutlines consequent
    simp only [Statement.features, Statement.outlines, Statement.subexpressions,
      Statement.substatements, count, countIn, List.countP_append, List.countP_cons,
      List.countP_nil, hkind, reduceCtorEq, decide_false, if_false, Bool.false_eq_true]
    omega
  | .conditional condition consequent (some alternative) =>
    have hkind : (Statement.conditional condition consequent (some alternative)).lineKind? = none :=
      rfl
    have hcondition := condition.countP_features kind
    have hconsequent := count_blockOutlines consequent
    have halternative := count_blockOutlines alternative
    simp only [Statement.features, Statement.outlines, Statement.subexpressions,
      Statement.substatements, count, countIn, List.countP_append, List.countP_cons,
      List.countP_nil, hkind, reduceCtorEq, decide_false, if_false, Bool.false_eq_true]
    omega
  | .declaration d =>
    have hkind : (Statement.declaration d).lineKind? = some d.lineKind := rfl
    have hd := d.count_outline
    simp only [Statement.features, Statement.outlines, Statement.subexpressions,
      Statement.substatements, countIn, List.countP_cons, List.countP_nil, hkind, d.kind_feature,
      Option.some.injEq]
    omega

theorem Declaration.count_outline (d : Declaration) :
    d.outline.count kind = d.subexpressions.countP (fun e => e.lineKind? = some kind) +
        d.substatements.countP fun st => st.lineKind? = some kind := by
  match d with
  | .class name body => exact count_blockOutlines body
  | .function name parameters body => exact count_blockOutlines body
  | .method owner name parameters body => exact count_blockOutlines body

theorem count_blockOutlines (b : List Statement) :
    (b.flatMap Statement.features).countP (fun f => f.kind = kind) +
        countIn kind (blockOutlines b) =
      (blockSubexpressions b).countP (fun e => e.lineKind? = some kind) +
        (blockSubstatements b).countP fun st => st.lineKind? = some kind := by
  match b with
  | [] => rfl
  | st :: b =>
    have hst := st.count_outlines
    have hb := count_blockOutlines b
    rw [List.flatMap_cons, blockOutlines, blockSubexpressions, blockSubstatements, countIn_append,
      List.countP_append, List.countP_append, List.countP_append]
    omega

end

end

def variablesIn (roles : List (Role × Identifier)) : List Identifier :=
  (roles.filter fun p => p.1 = .variable).map Prod.snd

theorem variablesIn_append (roles₁ roles₂ : List (Role × Identifier)) :
    variablesIn (roles₁ ++ roles₂) = variablesIn roles₁ ++ variablesIn roles₂ := by
  rw [variablesIn, List.filter_append, List.map_append]
  rfl

theorem variablesIn_parameterRoles (parameters : List Identifier) :
    variablesIn (parameterRoles parameters) = [] := by
  simp [variablesIn, parameterRoles]

mutual

theorem Expr.filterMap_introduced? (e : Expr) :
    e.subexpressions.filterMap Expr.introduced? = variablesIn e.roles := by
  match e with
  | .string value => rfl
  | .number value => rfl
  | .identifier x => rfl
  | .binary op left right =>
    rw [Expr.roles, variablesIn_append, ← left.filterMap_introduced?, ← right.filterMap_introduced?,
      ← List.filterMap_append]
    rfl
  | .call callee arguments =>
    rw [Expr.roles, variablesIn_append, ← callee.filterMap_introduced?,
      ← Expr.filterMap_introduced?_list arguments, ← List.filterMap_append]
    rfl
  | .assign target value =>
    rw [Expr.roles, variablesIn_append, ← target.filterMap_introduced?,
      ← value.filterMap_introduced?, ← List.filterMap_append]
    rfl
  | .declare x value => exact congrArg (x :: ·) value.filterMap_introduced?

theorem Expr.filterMap_introduced?_list (es : List Expr) :
    (Expr.subexpressionsList es).filterMap Expr.introduced? = variablesIn (Expr.rolesList es) := by
  match es with
  | [] => rfl
  | e :: es =>
    rw [Expr.rolesList, Expr.subexpressionsList, variablesIn_append, List.filterMap_append,
      e.filterMap_introduced?, Expr.filterMap_introduced?_list es]

end

mutual

theorem Statement.filterMap_introduced? (st : Statement) :
    st.subexpressions.filterMap Expr.introduced? = variablesIn st.roles := by
  match st with
  | .expression value => exact value.filterMap_introduced?
  | .return value => exact value.filterMap_introduced?
  | .conditional condition consequent none =>
    rw [Statement.roles, Statement.subexpressions, variablesIn_append, List.filterMap_append,
      condition.filterMap_introduced?, filterMap_introduced?_block consequent]
  | .conditional condition consequent (some alternative) =>
    rw [Statement.roles, Statement.subexpressions, variablesIn_append, variablesIn_append,
      List.filterMap_append, List.filterMap_append, condition.filterMap_introduced?,
      filterMap_introduced?_block consequent, filterMap_introduced?_block alternative]
  | .declaration d => exact d.filterMap_introduced?

theorem Declaration.filterMap_introduced? (d : Declaration) :
    d.subexpressions.filterMap Expr.introduced? = variablesIn d.roles := by
  match d with
  | .class name body => exact filterMap_introduced?_block body
  | .function name parameters body =>
    have hroles : variablesIn (parameterRoles parameters ++ blockRoles body) =
        variablesIn (blockRoles body) := by
      rw [variablesIn_append, variablesIn_parameterRoles, List.nil_append]
    exact (filterMap_introduced?_block body).trans hroles.symm
  | .method owner name parameters body =>
    have hroles : variablesIn (parameterRoles parameters ++ blockRoles body) =
        variablesIn (blockRoles body) := by
      rw [variablesIn_append, variablesIn_parameterRoles, List.nil_append]
    exact (filterMap_introduced?_block body).trans hroles.symm

theorem filterMap_introduced?_block (b : List Statement) :
    (blockSubexpressions b).filterMap Expr.introduced? = variablesIn (blockRoles b) := by
  match b with
  | [] => rfl
  | st :: b =>
    rw [blockRoles, blockSubexpressions, variablesIn_append, List.filterMap_append,
      st.filterMap_introduced?, filterMap_introduced?_block b]

end

theorem Identified.bindings {globals : List (String × Nat)} {b : Block}
    (h : Identified globals (blockRoles b)) :
    (((blockSubexpressions b).filterMap Expr.introduced?).map Identifier.id).Nodup ∧
      ∀ x ∈ (blockSubexpressions b).filterMap Expr.introduced?, x.id ≠ none := by
  have hsublist : ((blockRoles b).filter fun p => p.1 = .variable).Sublist
      (definedIn (blockRoles b)) := by
    refine List.monotone_filter_right _ fun p hp => ?_
    rw [decide_eq_true_eq] at hp
    simp [hp]
  rw [filterMap_introduced?_block, variablesIn, List.map_map]
  constructor
  · exact (List.nodup_append.1 h.nodup).2.1.sublist (hsublist.map _)
  · intro x hx
    obtain ⟨p, hp, rfl⟩ := List.mem_map.1 hx
    exact h.bound p (hsublist.subset hp)

theorem nodup_classNames_of_distinct {b : Block} (h : Resolution.Distinct [b.tree])
    {p : List Identifier × Block} (hp : p ∈ ([], b) :: blocksIn b) :
    (p.2.flatMap Statement.classNames).Nodup := by
  rw [Block.tree, distinct_scope] at h
  have hhoisted : (p.2.hoisted.map Prod.fst).Nodup := by
    rcases List.mem_cons.1 hp with rfl | hp
    · exact h.1
    · exact (nodup_blocksIn b h.2 hp).2
  exact hhoisted.sublist ((classNames_sublist p.2).trans (scopeNames_sublist_hoisted p.2))

theorem KeepsParts.of_same {b : Block} {script : List Script.Statement}
    (hbindings : (((blockSubexpressions b).filterMap Expr.introduced?).map Identifier.id).Nodup ∧
      ∀ x ∈ (blockSubexpressions b).filterMap Expr.introduced?, x.id ≠ none)
    (h : Same (b.outline .plain) (Script.outline .plain script)) :
    KeepsParts b (Script.linesOf script) := by
  have hread := (Script.reads_linesOf script).read_eq
  have hscopes : Same (b.outline .plain) (ofLines (Script.linesOf script)) := by
    rw [ofLines, hread]
    exact h
  refine ⟨fun kind => ?_, hbindings, hscopes⟩
  rw [← countOpen_read, hread, ← count_blockOutlines]
  exact (Same.count_eq kind _ h).symm

theorem keepsParts_resolve {b program : Block}
    (hnone : ((withBuiltins Prelude.builtins).resolve b).2.2 = none)
    (hb : ∀ x ∈ blockIdentifiers b, IsWord x.name)
    (hprogram : ((withBuiltins Prelude.builtins).resolve b).1 = program) :
    ∃ lines, Text.lines (Generator.ofBlock program).code = Prelude.lines ++ lines ∧
      KeepsParts program lines := by
  have hident := identified_resolve (.withBuiltins _) hnone
  have hassignable := assignable_resolve hnone
  have hhoisted := nodup_hoisted_resolve hnone
  have hdistinct := distinct_resolve hnone
  have hshows := Generator.shows_code_resolve hnone hb hprogram
  -- From here on the program is known by what resolution made sure of.
  rw [hprogram] at hident hassignable hhoisted hdistinct
  have hspellable := hident.spellable_block (Generator.mem_declaredIds_iff hhoisted hassignable)
    hassignable
  rw [Generator.script_ofBlock hhoisted] at hshows
  generalize (Generator.ofBlock program).declaredIds = ids at hspellable hshows
  have hclasses := fun p hp => nodup_classNames_of_distinct hdistinct (p := p) hp
  rw [List.forall_mem_cons] at hclasses
  have houtlined := outlined_statements program hspellable hclasses.2 {} (undeclared_nil {} _)
  exact ⟨Script.linesOf (program.lower ids), hshows.lines,
    .of_same hident.bindings (houtlined.same_lower hclasses.1 .plain)⟩

/-- A source is accepted as a program or as a document: the resolved block, and the code. -/
inductive Compiles (source : String) : Block → String → Prop
  | program {p : CompiledProgram} (h : compile source = .ok p) : Compiles source p.program p.code
  | document {c : CompiledDocument} (h : compileDocument source = .ok c) :
    Compiles source (c.document.declarations.map .declaration) c.code

theorem Resolved.nodup_classNames {globals : List (String × Nat)} {b : Block}
    (h : Resolved globals b) {p : List Identifier × Block} (hp : p ∈ ([], b) :: blocksIn b) :
    (p.2.flatMap Statement.classNames).Nodup :=
  nodup_classNames_of_distinct h.distinct hp

theorem Compiles.exists_resolve {source code : String} {b : Block} (h : Compiles source b code) :
    ∃ b₀, ((withBuiltins Prelude.builtins).resolve b₀).1 = b ∧
      ((withBuiltins Prelude.builtins).resolve b₀).2.2 = none ∧
      (∀ x ∈ blockIdentifiers b₀, IsWord x.name) ∧ code = (Generator.ofBlock b).code := by
  cases h with
  | @program p h =>
    obtain ⟨b₀, hb₀, hprogram, hnone, -, hcode⟩ := compile_eq_ok_iff.1 h
    exact ⟨b₀, hprogram, hnone, fun x hx => (Block.identifiers_of_ofSource hb₀ hx).2, hcode.symm⟩
  | @document c h =>
    obtain ⟨doc, session, hsource, hresolve, hcode⟩ := exists_resolve_of_compileDocument h
    exact ⟨_, by rw [hresolve], by rw [hresolve],
      fun x hx => (Document.identifiers_of_ofSource hsource hx).2, hcode⟩

theorem Compiles.resolved {source code : String} {b : Block} (h : Compiles source b code) :
    (∃ globals, Resolved globals b) ∧
      code = Prelude.script ++ Script.text (b.lower (Generator.ofBlock b).declaredIds) := by
  obtain ⟨b₀, hprogram, hnone, -, hcode⟩ := h.exists_resolve
  have hresolved := resolved_resolve (.withBuiltins _) hnone
  rw [hprogram] at hresolved
  refine ⟨⟨_, hresolved⟩, ?_⟩
  rw [hcode, Generator.code, Generator.script_ofBlock (hresolved.nodup_hoisted List.mem_cons_self)]

theorem Compiles.isPlain_name {source code : String} {b : Block} (h : Compiles source b code) :
    ∀ x ∈ blockIdentifiers b, Script.IsPlain x.name := by
  obtain ⟨b₀, rfl, -, hword, -⟩ := h.exists_resolve
  exact names_resolve fun x hx => Script.isPlain_of_isWordRest (hword x hx)

theorem Compiles.shows {source code : String} {b : Block} (h : Compiles source b code) :
    Script.Shows Prelude.lines code (b.lower (Generator.ofBlock b).declaredIds) := by
  obtain ⟨b₀, hprogram, hnone, hword, hcode⟩ := h.exists_resolve
  have hhoisted := nodup_hoisted_resolve hnone
  rw [hprogram] at hhoisted
  rw [hcode, ← Generator.script_ofBlock hhoisted]
  exact Generator.shows_code_resolve hnone hword hprogram

/--
The code of what is compiled consists of the prelude and of lines that have every part of the block
once, and each in the scope of its block.
-/
theorem keepsParts_of_compiles {source code : String} {b : Block} (h : Compiles source b code) :
    ∃ lines, Text.lines code = Prelude.lines ++ lines ∧ KeepsParts b lines := by
  obtain ⟨b₀, hprogram, hnone, hword, hcode⟩ := h.exists_resolve
  rw [hcode]
  exact keepsParts_resolve hnone hword hprogram

def regroupedSource : String :=
  "\\fun\x7bA::m\x7d\x7bx\x7d\x7bif y:=f(x)\x7b\\class\x7bA\x7d\x7bz:=y;\x7d\x7d" ++
  "else\x7b\\fun\x7bA::k\x7d\x7b\x7d\x7b\x7d\x7dreturn x+f(x);\x7d" ++
  "\\class\x7bA\x7d\x7b\x7d\\fun\x7bf\x7d\x7bx\x7d\x7b\x7d"

open Identifier in
def regroupedProgram : Block :=
  [.declaration (.method (placed "A" 5) (placed "m" 8) [placed "x" 11]
      [.conditional (.declare (placed "y" 17)
          (.call (.identifier (placed "f" 20)) [.identifier (placed "x" 22)]))
        [.declaration (.class (placed "A" 32)
          [.expression (.declare (placed "z" 35) (.identifier (placed "y" 38)))])]
        (some [.declaration (.method (placed "A" 52) (placed "k" 55) [] [])]),
      .return (.binary .add (.identifier (placed "x" 69))
        (.call (.identifier (placed "f" 71)) [.identifier (placed "x" 73)]))]),
    .declaration (.class (placed "A" 84) []),
    .declaration (.function (placed "f" 93) [placed "x" 96] [])]

theorem ofSource_regroupedSource : Block.ofSource regroupedSource = .ok regroupedProgram := by
  cbv

theorem keepsParts_regroupedSource :
    ∃ p lines, compile regroupedSource = .ok p ∧ Text.lines p.code = Prelude.lines ++ lines ∧
      KeepsParts p.program lines ∧
      [.temporary, .variable, .return, .function, .method, .constructor].map
        (fun kind => lines.countP fun line => LineKind.ofLine? line = some kind) =
          [3, 2, 1, 1, 2, 2] := by
  obtain ⟨p, hp, hprogram⟩ :=
    exists_compile ofSource_regroupedSource (by decide +kernel) (by decide +kernel)
  obtain ⟨lines, hlines, hkeeps⟩ := keepsParts_of_compiles (.program hp)
  refine ⟨p, lines, hp, hlines, hkeeps, ?_⟩
  simp only [hkeeps.counts, hprogram]
  decide +kernel

end LiterateFun
