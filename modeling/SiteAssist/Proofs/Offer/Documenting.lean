import Mathlib.Data.List.Induction
import SiteAssist.Proofs.Offer.Callback

/-!
# Which method documents an item

A class file may declare several classes, interfaces and traits, some of them in the blocks of namespaces
(`classesOf`).  The methods of all of them are taken together, in the order of the file, and of several
methods of one name the last counts, whatever class the callback names (`methodsOf_eq`,
`exists_docIn?_append`).

* `resolve_documented`: the item gets the summary of the callback's own class **if that class prevails**
  (`Prevails`), and that of another class if not.
-/

namespace SiteAssist

namespace Php

/-! ## The classes of a file -/

mutual

/-- The classes, interfaces and traits of a declaration, those in its blocks included. -/
def Declaration.classes : Declaration → List ClassLike
  | .classLike c => [c]
  | .block inner => classesOf inner
  | .function .. => []
  | .global .. => []

/-- The classes, interfaces and traits of several declarations, in order. -/
def classesOf : List Declaration → List ClassLike
  | [] => []
  | d :: ds => d.classes ++ classesOf ds

end

mutual

theorem Declaration.methods_eq : ∀ d : Declaration, d.methods = d.classes.flatMap ClassLike.methods
  | .classLike c => by rw [Declaration.methods, Declaration.classes, List.flatMap_singleton]
  | .block inner => by rw [Declaration.methods, Declaration.classes, methodsOf_eq inner]
  | .function .. => by rw [Declaration.methods, Declaration.classes, List.flatMap_nil]
  | .global .. => by rw [Declaration.methods, Declaration.classes, List.flatMap_nil]

/-- The methods of a file are those of its classes, **one class after the other**. -/
theorem methodsOf_eq : ∀ ds : List Declaration, methodsOf ds = (classesOf ds).flatMap ClassLike.methods
  | [] => by rw [methodsOf, classesOf, List.flatMap_nil]
  | d :: ds => by rw [methodsOf, classesOf, List.flatMap_append, d.methods_eq, methodsOf_eq ds]

end

/-! ## The method that counts -/

/-- A method of this name is declared. -/
def ClassLike.Declares (c : ClassLike) (name : String) : Prop := ∃ m ∈ c.methods, m.name = name

instance (c : ClassLike) (name : String) : Decidable (c.Declares name) :=
  inferInstanceAs (Decidable (∃ m ∈ c.methods, m.name = name))

/-- The summary of a method of a class: none if it is not declared or not documented. -/
def ClassLike.summary? (c : ClassLike) (name : String) : Option String :=
  (Method.docIn? c.methods name).bind DocComment.summary?

variable {name : String} {c : ClassLike} {cs before after : List ClassLike}

theorem docIn?_append_of_declares (methods : List Method) (h : c.Declares name) :
    Method.docIn? (methods ++ c.methods) name = Method.docIn? c.methods name := by
  obtain ⟨m, hm, hname⟩ := h
  rw [Method.docIn?, Method.docIn?, List.reverse_append, List.find?_append]
  cases hfind : c.methods.reverse.find? (·.name = name) with
  | some found => rfl
  | none =>
    have := List.find?_eq_none.mp hfind m (List.mem_reverse.mpr hm)
    exact absurd (decide_eq_true hname) this

theorem docIn?_append_of_not_declares (methods : List Method) (h : ¬c.Declares name) :
    Method.docIn? (methods ++ c.methods) name = Method.docIn? methods name := by
  have hnone : c.methods.reverse.find? (·.name = name) = none := by
    rw [List.find?_eq_none]
    intro m hm hname
    exact h ⟨m, List.mem_reverse.mp hm, of_decide_eq_true hname⟩
  rw [Method.docIn?, Method.docIn?, List.reverse_append, List.find?_append, hnone, Option.none_or]

/-- Classes that do not declare the method can be left out at the end. -/
theorem docIn?_append_of_forall (methods : List Method) (h : ∀ d ∈ after, ¬d.Declares name) :
    Method.docIn? (methods ++ after.flatMap ClassLike.methods) name = Method.docIn? methods name := by
  induction after using List.reverseRecOn with
  | nil => rw [List.flatMap_nil, List.append_nil]
  | append_singleton after d ih =>
    obtain ⟨hafter, hd⟩ := List.forall_mem_append.mp h
    rw [List.flatMap_append, List.flatMap_singleton, ← List.append_assoc,
      docIn?_append_of_not_declares _ (hd d (List.mem_singleton_self d)), ih hafter]

/-- **The last class that declares the method** documents it, whatever stands before. -/
theorem exists_docIn?_append (methods : List Method) (h : ∃ d ∈ cs, d.Declares name) :
    ∃ d ∈ cs, d.Declares name ∧
      Method.docIn? (methods ++ cs.flatMap ClassLike.methods) name = Method.docIn? d.methods name := by
  induction cs using List.reverseRecOn with
  | nil => simp at h
  | append_singleton cs e ih =>
    rw [List.flatMap_append, List.flatMap_singleton, ← List.append_assoc]
    by_cases he : e.Declares name
    · exact ⟨e, by simp, he, docIn?_append_of_declares _ he⟩
    · obtain ⟨d, hd, hdeclares⟩ := h
      have hd : d ∈ cs := by
        rcases List.mem_append.mp hd with hd | hd
        · exact hd
        · rw [List.mem_singleton.mp hd] at hdeclares
          exact absurd hdeclares he
      obtain ⟨d, hd, hdeclares, hdoc⟩ := ih ⟨d, hd, hdeclares⟩
      exact ⟨d, List.mem_append_left _ hd, hdeclares, (docIn?_append_of_not_declares _ he).trans hdoc⟩

/-- A class counts before all others for a method: no later one declares it, and no earlier one does if
this one does not. -/
def ClassLike.Prevails (c : ClassLike) (before after : List ClassLike) (name : String) : Prop :=
  (∀ d ∈ after, ¬d.Declares name) ∧ (c.Declares name ∨ ∀ d ∈ before, ¬d.Declares name)

instance : Decidable (c.Prevails before after name) := inferInstanceAs (Decidable (_ ∧ _))

theorem docIn?_of_prevails (h : c.Prevails before after name) :
    Method.docIn? ((before ++ c :: after).flatMap ClassLike.methods) name =
      Method.docIn? c.methods name := by
  obtain ⟨hafter, hown⟩ := h
  rw [List.flatMap_append, List.flatMap_cons, ← List.append_assoc, docIn?_append_of_forall _ hafter]
  by_cases hc : c.Declares name
  · exact docIn?_append_of_declares _ hc
  · have hbefore := hown.resolve_left hc
    calc Method.docIn? (before.flatMap ClassLike.methods ++ c.methods) name
        = Method.docIn? ([] ++ before.flatMap ClassLike.methods) name :=
          docIn?_append_of_not_declares _ hc
      _ = Method.docIn? [] name := docIn?_append_of_forall [] hbefore
      _ = Method.docIn? ([] ++ c.methods) name := (docIn?_append_of_not_declares [] hc).symm

/-- Another class documents the method if this one does not prevail. -/
theorem exists_docIn?_of_not_prevails (h : ¬c.Prevails before after name) :
    ∃ d ∈ before ++ after, d.Declares name ∧
      Method.docIn? ((before ++ c :: after).flatMap ClassLike.methods) name =
        Method.docIn? d.methods name := by
  rw [List.flatMap_append, List.flatMap_cons, ← List.append_assoc]
  -- a later class comes first; without one, the class itself must not declare the method
  by_cases hafter : ∃ d ∈ after, d.Declares name
  · obtain ⟨d, hd, hdeclares, hdoc⟩ :=
      exists_docIn?_append (before.flatMap ClassLike.methods ++ c.methods) hafter
    exact ⟨d, List.mem_append_right _ hd, hdeclares, hdoc⟩
  · have hnone : ∀ d ∈ after, ¬d.Declares name := fun d hd hdeclares => hafter ⟨d, hd, hdeclares⟩
    have hown : ¬(c.Declares name ∨ ∀ d ∈ before, ¬d.Declares name) := fun hown => h ⟨hnone, hown⟩
    rw [not_or, Classical.not_forall] at hown
    obtain ⟨hc, e, he⟩ := hown
    rw [Classical.not_imp, Classical.not_not] at he
    obtain ⟨d, hd, hdeclares, hdoc⟩ := exists_docIn?_append [] ⟨e, he⟩
    rw [docIn?_append_of_forall _ hnone, docIn?_append_of_not_declares _ hc]
    exact ⟨d, List.mem_append_left _ hd, hdeclares, hdoc⟩

end Php

namespace Offer.Templates

/-! ## Resolving an item -/

variable {tree : FileTree} {o : Outlines} {root : Path} {item : Completion} {k : Callback} {text : String}

/-- A class file is read as this text by a lookup: from the tree, or because it was before. -/
def ReadAs (tree : FileTree) (o : Outlines) (p : Path) (text : String) : Prop :=
  Outlines.methods? o p = some (methodsIn text) ∨
    Outlines.methods? o p = none ∧ tree.readText? p = some text

theorem fst_methodsAt_of_readAs {p : Path} (h : ReadAs tree o p text) :
    (methodsAt tree o p).1 = some (methodsIn text) := by
  rw [fst_methodsAt, methods?_methodsAt, if_pos (Path.same_iff.mpr rfl)]
  rcases h with h | ⟨h, hread⟩
  · rw [h, Option.some_or]
  · rw [h, Option.none_or, hread, Option.map_some]

/-- The documentation by the classes of the file, one after the other. -/
theorem fst_resolve_of_readAs (hitem : item.documentation = none) (hk : k.Proper)
    (hcallback : payload? item "callback" = some k.text) (hroot : root.isAbsolute = true)
    (hread : ReadAs tree o (k.file root) text) :
    (resolve tree root o item).1 = { item with
      documentation := (Php.Method.docIn?
        ((Php.classesOf (Php.outline text)).flatMap Php.ClassLike.methods) k.method).bind
          DocComment.summary? } := by
  rw [fst_resolve hitem hk hcallback hroot, fst_methodsAt_of_readAs hread, Option.bind_some, methodsIn,
    Php.methodsOf_eq]

/-- **The documentation of an item is that of its callback's own class** if the class prevails, and
otherwise that of another class of the file.

The item has no documentation yet, and its callback names a method of a class that the class file of the
site declares, between others.  If no class after it declares a method of this name, and none before it does
when the class itself does not, then the item gets the summary that the class gives the method, and none if
it gives none.  If not, the item gets what another class that declares such a method gives it. -/
theorem resolve_documented (hitem : item.documentation = none) (hk : k.Proper)
    (hcallback : payload? item "callback" = some k.text) (hroot : root.isAbsolute = true)
    (hread : ReadAs tree o (k.file root) text) {before after : List Php.ClassLike} {methods : List Php.Method}
    (hclasses : Php.classesOf (Php.outline text) = before ++ ⟨k.className, methods⟩ :: after) :
    let own : Php.ClassLike := ⟨k.className, methods⟩
    let resolved := (resolve tree root o item).1
    (own.Prevails before after k.method →
      resolved = { item with documentation := own.summary? k.method }) ∧
    (¬own.Prevails before after k.method →
      ∃ other ∈ before ++ after, other.Declares k.method ∧
        resolved = { item with documentation := other.summary? k.method }) := by
  intro own resolved
  have hresolved := fst_resolve_of_readAs hitem hk hcallback hroot hread
  rw [hclasses] at hresolved
  refine ⟨fun h => ?_, fun h => ?_⟩
  · rw [Php.docIn?_of_prevails h] at hresolved
    exact hresolved
  · obtain ⟨other, hother, hdeclares, hdoc⟩ := Php.exists_docIn?_of_not_prevails h
    rw [hdoc] at hresolved
    exact ⟨other, hother, hdeclares, hresolved⟩

/-- A method of a class in a namespace. -/
def ownMethod : Callback := ⟨["N"], "C", "m"⟩

/-- An item that names this method. -/
def unresolved : Completion :=
  { label := "x", kind := .function,
    data := some (.object [("callback", .string "\\N\\C::m"), ("root", .string "/site")]) }

theorem unresolved_asks : unresolved.documentation = none ∧ ownMethod.Proper ∧
    payload? unresolved "callback" = some ownMethod.text ∧ (Path.mk "/site").isAbsolute = true := by
  decide +kernel

/-- A site whose class file reads as a text. -/
def classFile (text : String) : FileTree :=
  ⟨[(["site"], .directory), (["site", "web"], .directory), (["site", "web", "core"], .directory),
    (["site", "web", "core", "lib"], .directory), (["site", "web", "core", "lib", "N"], .directory),
    (["site", "web", "core", "lib", "N", "C.php"], .file text.toUTF8)]⟩

/-- A class after an interface that declares its method, and before a trait that does not. -/
def prevailing : String :=
  "<?php\nnamespace N \x7b\n  interface I \x7b\n    /** Of I. */\n    function m();\n  \x7d\n" ++
    "  class C implements I \x7b\n    /** Of C. */\n    function m() \x7b\x7d\n  \x7d\n\x7d\n" ++
    "trait T \x7b\n  /** Of T. */\n  function n() \x7b\x7d\n\x7d\n"

theorem resolve_documented_prevailing :
    ReadAs (classFile prevailing) [] (ownMethod.file ⟨"/site"⟩) prevailing ∧
      Php.classesOf (Php.outline prevailing) =
        [⟨"I", [⟨"m", some "/** Of I. */"⟩]⟩] ++ ⟨"C", [⟨"m", some "/** Of C. */"⟩]⟩ ::
          [⟨"T", [⟨"n", some "/** Of T. */"⟩]⟩] ∧
      (resolve (classFile prevailing) ⟨"/site"⟩ [] unresolved).1.documentation = some "Of C." := by
  obtain ⟨hitem, hproper, hcallback, hroot⟩ := unresolved_asks
  have hread : ReadAs (classFile prevailing) [] (ownMethod.file ⟨"/site"⟩) prevailing := by
    refine Or.inr ⟨rfl, ?_⟩
    decide +kernel
  have hclasses : Php.classesOf (Php.outline prevailing) =
      [⟨"I", [⟨"m", some "/** Of I. */"⟩]⟩] ++ ⟨"C", [⟨"m", some "/** Of C. */"⟩]⟩ ::
        [⟨"T", [⟨"n", some "/** Of T. */"⟩]⟩] := by decide +kernel
  have hresolved :=
    (resolve_documented hitem hproper hcallback hroot hread hclasses).1 (by decide)
  refine ⟨hread, hclasses, ?_⟩
  rw [hresolved]
  decide +kernel

/-- A class before another that declares its method too. -/
def shadowed : String :=
  "<?php\nnamespace N;\nclass C \x7b\n  /** Of C. */\n  function m() \x7b\x7d\n\x7d\n" ++
    "class D \x7b\n  /** Of D. */\n  function m() \x7b\x7d\n\x7d\n"

/-- **A later class takes the place** of the callback's own. -/
theorem later_class_documents :
    ReadAs (classFile shadowed) [] (ownMethod.file ⟨"/site"⟩) shadowed ∧
      Php.classesOf (Php.outline shadowed) =
        [⟨ownMethod.className, [⟨"m", some "/** Of C. */"⟩]⟩, ⟨"D", [⟨"m", some "/** Of D. */"⟩]⟩] ∧
      Php.ClassLike.summary? ⟨ownMethod.className, [⟨"m", some "/** Of C. */"⟩]⟩ "m" = some "Of C." ∧
      payload? unresolved "callback" = some ownMethod.text ∧
      (resolve (classFile shadowed) ⟨"/site"⟩ [] unresolved).1.documentation = some "Of D." := by
  obtain ⟨hitem, hproper, hcallback, hroot⟩ := unresolved_asks
  have hread : ReadAs (classFile shadowed) [] (ownMethod.file ⟨"/site"⟩) shadowed := by
    refine Or.inr ⟨rfl, ?_⟩
    decide +kernel
  have hclasses : Php.classesOf (Php.outline shadowed) =
      [⟨ownMethod.className, [⟨"m", some "/** Of C. */"⟩]⟩, ⟨"D", [⟨"m", some "/** Of D. */"⟩]⟩] := by
    decide +kernel
  refine ⟨hread, hclasses, by decide +kernel, hcallback, ?_⟩
  rw [fst_resolve_of_readAs hitem hproper hcallback hroot hread, hclasses]
  decide +kernel

end Offer.Templates

end SiteAssist
