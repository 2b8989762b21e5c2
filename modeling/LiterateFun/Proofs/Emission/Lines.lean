import LiterateFun.Proofs.Emission.Outline

/-!
This module contains the outlines of scripts as trees. They are those that are read from the lines
of the scripts.
-/

namespace LiterateFun

open Script Outline

namespace Feature

def ofVariable (v : Variable) : Feature :=
  { kind := .variable, names := ["let " ++ v.text ++ ";"] }

def ofFunction (name : String) (parameters : List String) : Feature where
  kind := .function
  names := ["function " ++ spell name ++ listText (parameters.map spell) ++ " \x7b"]

def ofMethod (owner name : String) (parameters : List String) : Feature where
  kind := .method
  names := ["class " ++ spell owner ++ " \x7b",
    spell name ++ listText (parameters.map spell) ++ " \x7b"]

def ofConstructor (owner : String) : Feature where
  kind := .constructor
  names := ["class " ++ spell owner ++ " \x7b", "constructor() \x7b"]

end Feature

namespace Script

def Method.feature (owner : String) : Method → Feature
  | .mk name parameters _ => .ofMethod owner name parameters

def Statement.features : Statement → List Feature
  | .binary .. => [{ kind := .temporary, names := [] }]
  | .call .. => [{ kind := .temporary, names := [] }]
  | .declare v => [.ofVariable v]
  | .return _ => [{ kind := .return, names := [] }]
  | .function name parameters _ => [.ofFunction name parameters]
  | .class name constructor methods =>
    constructor.toList.map (fun _ => .ofConstructor name) ++ methods.map (Method.feature name)
  | _ => []

mutual

def Statement.outlines : Statement → List Outline
  | .conditional setup _ consequent none =>
    [.mk .plain (setup.flatMap Statement.features)
      (outlinesOf setup
        ++ [.mk .consequent (consequent.flatMap Statement.features) (outlinesOf consequent)])]
  | .conditional setup _ consequent (some alternative) =>
    [.mk .plain (setup.flatMap Statement.features)
      (outlinesOf setup
        ++ [.mk .consequent (consequent.flatMap Statement.features) (outlinesOf consequent)]
        ++ [.mk .alternative (alternative.flatMap Statement.features) (outlinesOf alternative)])]
  | .function name parameters body =>
    [.mk (.feature (.ofFunction name parameters)) (body.flatMap Statement.features)
      (outlinesOf body)]
  | .class name none methods => methodOutlines name methods
  | .class name (some body) methods =>
    .mk (.feature (.ofConstructor name)) (body.flatMap Statement.features) (outlinesOf body)
      :: methodOutlines name methods
  | .binary .. => []
  | .call .. => []
  | .declare _ => []
  | .assign .. => []
  | .unassignable _ => []
  | .value _ => []
  | .return _ => []

def Method.outline (owner : String) : Method → Outline
  | .mk name parameters body =>
    .mk (.feature (.ofMethod owner name parameters)) (body.flatMap Statement.features)
      (outlinesOf body)

def outlinesOf : List Statement → List Outline
  | [] => []
  | s :: script => s.outlines ++ outlinesOf script

def methodOutlines (owner : String) : List Method → List Outline
  | [] => []
  | m :: methods => m.outline owner :: methodOutlines owner methods

end

def outline (head : ScopeHead) (script : List Statement) : Outline :=
  .mk head (script.flatMap Statement.features) (outlinesOf script)

theorem outlinesOf_append (script₁ script₂ : List Statement) :
    outlinesOf (script₁ ++ script₂) = outlinesOf script₁ ++ outlinesOf script₂ := by
  induction script₁ with
  | nil => rfl
  | cons s script₁ ih => rw [List.cons_append, outlinesOf, outlinesOf, ih, List.append_assoc]

theorem outlinesOf_eq_flatMap (script : List Statement) :
    outlinesOf script = script.flatMap Statement.outlines := by
  induction script with
  | nil => rfl
  | cons s script ih => rw [outlinesOf, ih, List.flatMap_cons]

theorem methodOutlines_eq_map (owner : String) (methods : List Method) :
    methodOutlines owner methods = methods.map (Method.outline owner) := by
  induction methods with
  | nil => rfl
  | cons m methods ih => rw [methodOutlines, ih, List.map_cons]

theorem append_space_brace (text : String) : text ++ " " ++ "\x7b" = text ++ " \x7b" := by
  rw [String.append_assoc]
  rfl

theorem ofLine?_value (value : Value) : LineKind.ofLine? (value.text ++ ";") = none := by
  suffices hstart : ∀ keyword ∈ ["const temp", "let ", "return ", "function ", "constructor() "],
      ¬keyword.toList <+: (value.text ++ ";").toList by
    simp only [List.forall_mem_cons] at hstart
    rw [LineKind.ofLine?, if_neg hstart.1, if_neg hstart.2.1, if_neg hstart.2.2.1,
      if_neg hstart.2.2.2.1, if_neg hstart.2.2.2.2.1,
      if_neg fun h => not_opensBraces_semicolon _ h.2]
  cases value with
  | string value => simp [Value.text, stringLiteral]
  | «variable» v =>
    cases hid : v.id <;> simp [Value.text, Variable.text, spell, hid]
  | temporary index => simp [Value.text, temporaryText]
  | number value =>
    -- There is a space in every keyword, but none in a number.
    intro keyword hkeyword hprefix
    have hspace : ∀ keyword ∈ ["const temp", "let ", "return ", "function ", "constructor() "],
        ' ' ∈ keyword.toList := by
      decide
    have hmem := hprefix.subset (hspace keyword hkeyword)
    rw [String.toList_append, List.mem_append] at hmem
    cases hmem with
    | inl hmem => exact absurd (Number.mem_text hmem) (by decide)
    | inr hmem => simp at hmem

theorem reads_consequent {lines : List String} {own : List Feature} {inner : List Outline}
    (h : Reads lines own inner) (condition : Value) :
    Reads (bracedLines ("if (" ++ condition.text ++ ") ") lines) []
      [.mk .consequent own inner] := by
  have hkind : LineKind.ofLine? ("if (" ++ condition.text ++ ") " ++ "\x7b") = none := by
    simp [LineKind.ofLine?]
  apply h.unheaded _ (by simp) hkind
  rw [ScopeHead.ofLine, Feature.ofLine?, hkind]
  exact if_pos (by simp)

def ReadsWithin (owner : String) (lines : List String) (own : List Feature)
    (inner : List Outline) : Prop :=
  ∃ own' inner', Reads lines own' inner' ∧
    own'.map (Feature.within ("class " ++ spell owner ++ " \x7b")) = own ∧
    inner'.map (Outline.within ("class " ++ spell owner ++ " \x7b")) = inner

theorem ReadsWithin.class {owner : String} {lines : List String} {own : List Feature}
    {inner : List Outline} (h : ReadsWithin owner lines own inner) :
    Reads (bracedLines ("class " ++ spell owner ++ " ") lines) own inner := by
  obtain ⟨own', inner', hread, rfl, rfl⟩ := h
  rw [← append_space_brace]
  exact hread.class (by simp)

theorem ReadsWithin.append {owner : String} {lines₁ lines₂ : List String} {own₁ own₂ : List Feature}
    {inner₁ inner₂ : List Outline} (h₁ : ReadsWithin owner lines₁ own₁ inner₁)
    (h₂ : ReadsWithin owner lines₂ own₂ inner₂) :
    ReadsWithin owner (lines₁ ++ lines₂) (own₁ ++ own₂) (inner₁ ++ inner₂) := by
  obtain ⟨own₁', inner₁', hread₁, rfl, rfl⟩ := h₁
  obtain ⟨own₂', inner₂', hread₂, rfl, rfl⟩ := h₂
  exact ⟨own₁' ++ own₂', inner₁' ++ inner₂', hread₁.append hread₂, List.map_append, List.map_append⟩

theorem readsWithin_constructor {lines : List String} {own : List Feature} {inner : List Outline}
    (h : Reads lines own inner) (owner : String) :
    ReadsWithin owner (bracedLines "constructor() " lines) [.ofConstructor owner]
      [.mk (.feature (.ofConstructor owner)) own inner] := by
  refine ⟨_, _, h.headed (f := ⟨.constructor, ["constructor() \x7b"]⟩) (by decide) (by decide), ?_⟩
  exact ⟨rfl, rfl⟩

theorem readsWithin_method {lines : List String} {own : List Feature} {inner : List Outline}
    (h : Reads lines own inner) (owner name : String) (parameters : List String) :
    ReadsWithin owner (bracedLines (spell name ++ listText (parameters.map spell) ++ " ") lines)
      [.ofMethod owner name parameters]
      [.mk (.feature (.ofMethod owner name parameters)) own inner] := by
  have hfeature : Feature.ofLine?
      (spell name ++ listText (parameters.map spell) ++ " " ++ "\x7b") =
        some ⟨.method, [spell name ++ listText (parameters.map spell) ++ " \x7b"]⟩ := by
    have hkind : LineKind.ofLine?
        (spell name ++ listText (parameters.map spell) ++ " " ++ "\x7b") = some .method := by
      simp [LineKind.ofLine?, opensBraces_brace, spell]
    rw [Feature.ofLine?, hkind, append_space_brace]
    rfl
  exact ⟨_, _, h.headed (by simp [spell]) hfeature, rfl, rfl⟩

mutual

theorem Statement.reads_lines (s : Statement) : Reads s.lines s.features s.outlines := by
  match s with
  | .binary index op left right =>
    apply reads_feature
    simp [Feature.ofLine?, LineKind.ofLine?, LineKind.isNamed, temporaryText]
  | .call index callee arguments =>
    apply reads_feature
    simp [Feature.ofLine?, LineKind.ofLine?, LineKind.isNamed, temporaryText]
  | .declare v =>
    apply reads_feature
    simp [Feature.ofLine?, LineKind.ofLine?, LineKind.isNamed, Feature.ofVariable]
  | .assign v value =>
    apply reads_plain
    cases hid : v.id <;>
      simp [LineKind.ofLine?, not_opensBraces_semicolon, Variable.text, spell, hid]
  | .unassignable _ => exact reads_nil
  | .value value => exact reads_plain (ofLine?_value value)
  | .return value =>
    apply reads_feature
    simp [Feature.ofLine?, LineKind.ofLine?, LineKind.isNamed]
  | .conditional setup condition consequent none =>
    have hconsequent := reads_consequent (reads_linesOf consequent) condition
    exact ((reads_linesOf setup).append_scopes hconsequent).unheaded "" (by decide) (by decide) rfl
  | .conditional setup condition consequent (some alternative) =>
    have hconsequent := reads_consequent (reads_linesOf consequent) condition
    have halternative := (reads_linesOf alternative).unheaded "else " (by decide) (by decide) rfl
    exact (((reads_linesOf setup).append_scopes hconsequent).append_scopes halternative).unheaded ""
      (by decide) (by decide) rfl
  | .function name parameters body =>
    refine (reads_linesOf body).headed (by simp) ?_
    rw [append_space_brace]
    simp [Feature.ofLine?, LineKind.ofLine?, LineKind.isNamed, Feature.ofFunction]
  | .class name none methods => exact (readsWithin_methodLines name methods).class
  | .class name (some body) methods =>
    exact ((readsWithin_constructor (reads_linesOf body) name).append
      (readsWithin_methodLines name methods)).class

theorem Method.readsWithin_lines (owner : String) (m : Method) :
    ReadsWithin owner m.lines [m.feature owner] [m.outline owner] := by
  match m with
  | .mk name parameters body => exact readsWithin_method (reads_linesOf body) owner name parameters

theorem reads_linesOf (script : List Statement) :
    Reads (linesOf script) (script.flatMap Statement.features) (outlinesOf script) := by
  match script with
  | [] => exact reads_nil
  | s :: script =>
    rw [List.flatMap_cons]
    exact s.reads_lines.append (reads_linesOf script)

theorem readsWithin_methodLines (owner : String) (methods : List Method) :
    ReadsWithin owner (methodLines methods) (methods.map (Method.feature owner))
      (methodOutlines owner methods) := by
  match methods with
  | [] => exact ⟨[], [], reads_nil, rfl, rfl⟩
  | m :: methods =>
    exact (m.readsWithin_lines owner).append (readsWithin_methodLines owner methods)

end

end Script

end LiterateFun
