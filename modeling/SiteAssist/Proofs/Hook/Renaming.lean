import SiteAssist.Proofs.Hook.Stub
import SiteAssist.Proofs.Php.Head
import SiteAssist.Proofs.Text.Search

/-!
# The stub of a module

A module implements a hook under its own name.  The item of a hook is made one for the module by replacing the
first `function hook_` in the snippet and in the documentation.

* The documentation starts with a head that is written out anew, so it **always declares the module's function**
  (`replaceFirst_documentation`).
* The snippet holds the head as the file has it, escaped.  What is replaced in it is what is replaced in the
  signature alone (`replaceFirst_snippet`): neither the comment above nor the body holds what is searched for.

So the stub declares the module's function **if the name is found** in the head (`Found`), and only then
(`specialised_of_mem`): an ampersand, a line break or capitals hide it, and an attribute before it may be taken
for it.
-/

namespace SiteAssist

/-! ## Searching an escaped text -/

namespace Snippet

variable {s t needle : List Char}

/-- A text in which nothing is to be escaped. -/
def Unescaped (s : List Char) : Prop := ∀ c ∈ s, isSpecial c = false

instance (s : List Char) : Decidable (Unescaped s) := List.decidableBAll _ s

theorem escape_append (s t : List Char) : escape (s ++ t) = escape s ++ escape t := by
  induction s with
  | nil => rfl
  | cons c s ih =>
    rw [List.cons_append, escape, escape, ih]
    split <;> rfl

theorem escape_of_unescaped (h : Unescaped s) : escape s = s := by
  induction s with
  | nil => rfl
  | cons c s ih =>
    obtain ⟨hc, hs⟩ := List.forall_mem_cons.mp h
    rw [escape, if_neg (by simp [hc]), ih hs]

theorem escape_injective (h : escape s = escape t) : s = t := by
  have hread (u : List Char) : read? (escape u) = some (ofText u) := by
    have := read?_escape u []
    rwa [List.append_nil, read?_nil, Option.map_some, List.append_nil] at this
  have hpieces : ofText s = ofText t := by
    rw [← Option.some.injEq, ← hread, ← hread, h]
  exact List.map_injective_iff.mpr (fun _ _ => Piece.char.inj) hpieces

theorem prefix_of_prefix_escape (hn : Unescaped needle) (h : needle <+: escape s) :
    needle <+: s := by
  induction s generalizing needle with
  | nil => exact h
  | cons c s ih =>
    cases needle with
    | nil => exact List.nil_prefix
    | cons d needle =>
      obtain ⟨hd, hn⟩ := List.forall_mem_cons.mp hn
      rw [escape] at h
      split at h
      · rw [(List.cons_prefix_cons.mp h).1] at hd
        exact absurd hd (by decide)
      · obtain ⟨hdc, h⟩ := List.cons_prefix_cons.mp h
        exact List.cons_prefix_cons.mpr ⟨hdc, ih hn h⟩

/-- Escaping lets nothing occur that did not occur before. -/
theorem infix_of_infix_escape (hn : Unescaped needle) (h : needle <:+: escape s) :
    needle <:+: s := by
  induction s with
  | nil => exact h
  | cons c s ih =>
    rw [escape] at h
    split at h
    · rename_i hc
      -- the needle lacks the backslash, and the character after it too
      have hlater {d : Char} {t : List Char} (hd : isSpecial d = true) (h : needle <:+: d :: t) :
          needle <:+: t := by
        have hmem : d ∉ needle := fun hm => by
          rw [hn d hm] at hd
          cases hd
        rcases (Text.infix_append_cons (a := []) hmem).mp h with h | h
        · rw [List.infix_nil.mp h]
          exact List.nil_infix
        · exact h
      exact List.infix_cons (ih (hlater hc (hlater rfl h)))
    · rename_i hc
      rcases List.infix_cons_iff.mp h with hprefix | h
      · have hwhole : needle <+: escape (c :: s) := by rwa [escape, if_neg hc]
        exact (prefix_of_prefix_escape hn hwhole).isInfix
      · exact List.infix_cons (ih h)

end Snippet

namespace Hook

open Snippet (isSpecial escape Unescaped)
open Php (HeadParts)

/-- What is searched for in a stub. -/
def sought : List Char := ("function " ++ lead).toList

theorem sought_eq : sought = 'f' :: "unction hook_".toList := by decide

theorem notMem_sought : 'f' ∉ "unction hook_".toList := by decide

theorem unescaped_sought : Unescaped sought := by decide

/-- What is searched for does not occur before the signature. -/
theorem infix_comment_append {name : String} (hname : ∀ c ∈ name.toList, Php.isWordRest c = true)
    (s : List Char) : sought <:+: comment name ++ s ↔ sought <:+: s := by
  have hparts : comment name ++ s =
      "/**\n * Implement".toList ++ 's' :: (' ' :: name.toList ++ '(' :: (").\n */".toList ++ '\n' :: s)) := by
    have hlead : "/**\n * Implements ".toList = "/**\n * Implement".toList ++ ['s', ' '] := by decide
    have hend : "().\n */\n".toList = '(' :: (").\n */".toList ++ ['\n']) := by decide
    unfold comment
    rw [hlead, hend]
    simp only [List.append_assoc, List.cons_append, List.nil_append]
  have hblank : ¬sought <:+: ' ' :: name.toList := by
    intro h
    rcases List.infix_cons_iff.mp h with h | h
    · rw [sought_eq] at h
      nomatch (List.cons_prefix_cons.mp h).1
    · have hmem : ' ' ∈ name.toList := h.subset (by decide)
      exact absurd (hname _ hmem) (by decide)
  have hlead : ¬sought <:+: "/**\n * Implement".toList := by decide
  have hend : ¬sought <:+: ").\n */".toList := by decide
  rw [hparts, Text.infix_append_cons (c := 's') (by decide), Text.infix_append_cons (by decide),
    Text.infix_append_cons (c := '\n') (by decide)]
  simp only [hlead, hblank, hend, false_or]

/-- Nor does it occur after the signature, or across its end. -/
theorem infix_append_opening (s : List Char) :
    sought <:+: s ++ (opening ++ ("$0".toList ++ closing)) ↔ sought <:+: s := by
  have hnot : ¬sought <:+: opening ++ ("$0".toList ++ closing) := by decide
  rw [Text.infix_append_of_tails (by decide), or_iff_left hnot]

theorem replaceFirst_append {a : List Char} (h : ¬sought <:+: a) (r b : List Char) :
    Text.replaceFirst sought r (a ++ (sought ++ b)) = a ++ (r ++ b) := by
  rw [sought_eq] at h ⊢
  exact Text.replaceFirst_append notMem_sought h r b

/-- **Renaming the snippet renames the signature**, and nothing else. -/
theorem replaceFirst_snippet (h : Hook) (hname : ∀ c ∈ h.name.toList, Php.isWordRest c = true)
    {r : List Char} (hr : Unescaped r) :
    Text.replaceFirst sought r h.snippet.toList =
      { h with signature := String.ofList (Text.replaceFirst sought r h.signature.toList) }.snippet.toList := by
  have hescape {s : List Char} (hs : ¬sought <:+: s) : ¬sought <:+: escape s := fun hin =>
    hs (Snippet.infix_of_infix_escape unescaped_sought hin)
  have hsignature := @String.toList_ofList (Text.replaceFirst sought r h.signature.toList)
  rw [toList_snippet, toList_snippet, hsignature]
  by_cases hin : sought <:+: h.signature.toList
  · obtain ⟨a, b, hab, ha⟩ := Text.exists_first notMem_sought (sought_eq ▸ hin)
    rw [← sought_eq] at hab ha
    have hbefore : ¬sought <:+: comment h.name ++ escape a := by
      rw [infix_comment_append hname]
      exact hescape ha
    have hesc : escape (a ++ (sought ++ b)) = escape a ++ (sought ++ escape b) := by
      rw [Snippet.escape_append, Snippet.escape_append, Snippet.escape_of_unescaped unescaped_sought]
    have hesc' : escape (a ++ (r ++ b)) = escape a ++ (r ++ escape b) := by
      rw [Snippet.escape_append, Snippet.escape_append, Snippet.escape_of_unescaped hr]
    rw [hab, replaceFirst_append ha, hesc, hesc']
    have := replaceFirst_append hbefore r (escape b ++ (opening ++ ("$0".toList ++ closing)))
    simpa only [List.append_assoc] using this
  · rw [Text.replaceFirst_of_absent hin, Text.replaceFirst_of_absent]
    rw [infix_comment_append hname, infix_append_opening]
    exact hescape hin

theorem exists_documentation (h : Hook) : ∃ back : List Char, ∀ name : String,
    { h with name }.documentation.toList =
      "```php\n<?php\n".toList ++ ("function ".toList ++ (name.toList ++ back)) := by
  have hfront : "```php\n<?php\nfunction ".toList = "```php\n<?php\n".toList ++ "function ".toList := by
    decide
  refine ⟨("(" ++ ", ".intercalate h.parameters ++ ") \x7b\x7d\n```\n" ++ h.summary.getD "").toList,
    fun name => ?_⟩
  unfold documentation
  simp only [String.toList_append, hfront, List.append_assoc]

/-- **Renaming the documentation renames the hook** in it. -/
theorem replaceFirst_documentation (h : Hook) {rest : String} (hname : h.name = lead ++ rest) (stem : String) :
    Text.replaceFirst sought ("function " ++ stem).toList h.documentation.toList =
      { h with name := stem ++ rest }.documentation.toList := by
  obtain ⟨back, hback⟩ := exists_documentation h
  have hfront : ¬sought <:+: "```php\n<?php\n".toList := by decide
  have hold : h.documentation.toList =
      "```php\n<?php\n".toList ++ (sought ++ (rest.toList ++ back)) := by
    have hown := hback h.name
    unfold sought
    rw [String.toList_append, List.append_assoc, ← List.append_assoc lead.toList, ← String.toList_append,
      ← hname]
    exact hown
  rw [hold, replaceFirst_append hfront, hback, String.toList_append, String.toList_append]
  simp only [List.append_assoc]

/-! ## The stub of a module -/

variable {h : Hook} {m rest : String}

theorem isSpecial_of_isWord {c : Char} (h : Text.isWord c = true) : isSpecial c = false := by
  by_contra hc
  have hcases : c = '\\' ∨ c = '$' ∨ c = '\x7d' := by
    simpa only [isSpecial, Bool.not_eq_false, Bool.or_eq_true, beq_iff_eq, or_assoc] using hc
  rcases hcases with rfl | rfl | rfl <;> exact absurd h (by decide)

theorem unescaped_renamed (hm : ∀ c ∈ m.toList, Text.isWord c = true) :
    Unescaped ("function " ++ m ++ "_").toList := by
  have hlead : Unescaped "function ".toList := by decide
  have hend : Unescaped "_".toList := by decide
  rw [String.toList_append, String.toList_append]
  exact List.forall_mem_append.mpr
    ⟨List.forall_mem_append.mpr ⟨hlead, fun c hc => isSpecial_of_isWord (hm c hc)⟩, hend⟩

/-- A hook of a file has a name that starts like one and stands in the file. -/
theorem exists_parts_of_mem {source : String} (hh : h ∈ ofSource source) :
    (∃ rest, h.name = lead ++ rest) ∧
      ∃ p : HeadParts h.name h.signature, p.tokens <:+: Php.tokens source := by
  obtain ⟨d, hd, hof⟩ := List.mem_filterMap.mp hh
  unfold ofDeclaration? at hof
  split at hof
  · split at hof
    · rename_i hlead
      obtain rfl := Option.some.inj hof
      obtain ⟨us, hus, hhead⟩ := Php.exists_headAt hd
      obtain ⟨p, hp⟩ := hhead.exists_parts
      obtain ⟨rest, hrest⟩ := Text.isSome_stripPrefix?_iff.mp hlead
      refine ⟨⟨String.ofList rest, ?_⟩, p, hp.isInfix.trans hus.isInfix⟩
      rw [← String.toList_inj, String.toList_append, String.toList_ofList, hrest]
    · nomatch hof
  · nomatch hof

theorem isWordRest_of_parts {source : String} {p : HeadParts h.name h.signature}
    (hp : p.tokens <:+: Php.tokens source) : ∀ c ∈ h.name.toList, Php.isWordRest c = true := by
  refine Php.tokens_word (hp.subset ?_)
  rw [p.tokens_eq]
  simp

/-- A hook's item with another name: in the stub, where the head declares it, and in the documentation. -/
def itemNamed (h : Hook) (p : HeadParts h.name h.signature) (own : String) : Completion :=
  { h.completion with
    insertText := some { h with signature := p.before ++ own ++ p.after }.snippet
    documentation := h.completion.documentation.map fun _ => { h with name := own }.documentation }

/-- The name in a head is found: the keyword in lower case and one blank are right before it, and what is
searched for is nowhere before. -/
def Found (p : HeadParts h.name h.signature) : Prop :=
  ∃ pre, p.before.toList = pre ++ "function ".toList ∧ ¬sought <:+: pre

/-- A hook whose signature is renamed where it is found. -/
def renamed (h : Hook) (m : String) : Hook :=
  { h with
    signature := String.ofList
      (Text.replaceFirst sought ("function " ++ m ++ "_").toList h.signature.toList) }

/-- The name is found where nothing but the keyword and a blank stands before it. -/
theorem found_of_before {p : HeadParts h.name h.signature} (hbefore : p.before.toList = "function ".toList) :
    Found p :=
  ⟨[], hbefore, by simp [sought_eq]⟩

/-- What is specialised is the signature, and the name in the documentation. -/
theorem specialised_completion (hname : ∀ c ∈ h.name.toList, Php.isWordRest c = true)
    (hrest : h.name = lead ++ rest) (hm : ∀ c ∈ m.toList, Text.isWord c = true) :
    specialised h.completion m =
      { h.completion with
        insertText := some (h.renamed m).snippet
        documentation := h.completion.documentation.map fun _ =>
          { h with name := m ++ "_" ++ rest }.documentation } := by
  have hsnippet := replaceFirst_snippet h hname (unescaped_renamed hm)
  have hdocumentation := replaceFirst_documentation h hrest (m ++ "_")
  rw [← String.append_assoc] at hdocumentation
  have hinsert : h.completion.insertText = some h.snippet := rfl
  have hdocumented : ∀ d ∈ h.completion.documentation, d = h.documentation := by
    unfold completion
    dsimp only
    split <;> simp
  have hdocumentations : (h.completion.documentation.map fun d =>
        String.ofList (Text.replaceFirst sought ("function " ++ m ++ "_").toList d.toList)) =
      h.completion.documentation.map fun _ => { h with name := m ++ "_" ++ rest }.documentation := by
    refine Option.map_congr fun d hd => ?_
    rw [hdocumented d hd, hdocumentation, String.ofList_toList]
  unfold specialised Completion.renamed
  dsimp only
  rw [show ("function " ++ lead).toList = sought from rfl, hdocumentations, hinsert, Option.map_some, hsnippet,
    String.ofList_toList]
  rfl

theorem snippet_injective {a b : String}
    (hab : { h with signature := a }.snippet = { h with signature := b }.snippet) : a = b := by
  have hlist := congrArg String.toList hab
  rw [toList_snippet, toList_snippet, List.append_cancel_left_eq, List.append_cancel_right_eq] at hlist
  exact String.toList_inj.mp (Snippet.escape_injective hlist)

/-- An item has the name of the module's function if the signature does. -/
theorem specialised_eq_itemNamed_iff (hname : ∀ c ∈ h.name.toList, Php.isWordRest c = true)
    (hrest : h.name = lead ++ rest) (p : HeadParts h.name h.signature)
    (hm : ∀ c ∈ m.toList, Text.isWord c = true) :
    specialised h.completion m = h.itemNamed p (m ++ "_" ++ rest) ↔
      Text.replaceFirst sought ("function " ++ m ++ "_").toList h.signature.toList =
        p.before.toList ++ ((m ++ "_").toList ++ (rest.toList ++ p.after.toList)) := by
  have hown : p.before.toList ++ ((m ++ "_").toList ++ (rest.toList ++ p.after.toList)) =
      (p.before ++ (m ++ "_" ++ rest) ++ p.after).toList := by
    simp only [String.toList_append, List.append_assoc]
  rw [specialised_completion hname hrest hm, hown]
  constructor
  · intro heq
    have hsnippet := snippet_injective (Option.some.inj (congrArg Completion.insertText heq))
    rw [← hsnippet, String.toList_ofList]
  · intro heq
    rw [itemNamed, renamed, heq, String.ofList_toList]

/-- The name is replaced by every other one if and only if it is found. -/
theorem found_iff (p : HeadParts h.name h.signature) (hrest : h.name = lead ++ rest) :
    (∀ m : String, (∀ c ∈ m.toList, Text.isWord c = true) →
      Text.replaceFirst sought ("function " ++ m ++ "_").toList h.signature.toList =
        p.before.toList ++ ((m ++ "_").toList ++ (rest.toList ++ p.after.toList))) ↔ Found p := by
  have hsignature : h.signature.toList = p.before.toList ++ (lead.toList ++ (rest.toList ++ p.after.toList)) := by
    have hname := congrArg String.toList hrest
    rw [String.toList_append] at hname
    refine p.toList_signature.trans ?_
    rw [hname, List.append_assoc]
  have hsought : sought = "function ".toList ++ lead.toList := String.toList_append
  constructor
  · intro hall
    have hown := hall "a" (List.all_eq_true.mp (by decide))
    by_cases hin : sought <:+: h.signature.toList
    · obtain ⟨pre, after, hfirst, hpre⟩ := Text.exists_first notMem_sought (sought_eq ▸ hin)
      rw [← sought_eq] at hfirst hpre
      rw [hfirst, replaceFirst_append hpre] at hown
      have hlead : lead.toList = 'h' :: "ook_".toList := by decide
      have hnew : ("function " ++ "a" ++ "_").toList = "function ".toList ++ 'a' :: ['_'] := by decide
      have hstart : ("a" ++ "_").toList = 'a' :: ['_'] := by decide
      rw [hfirst, hsought, hlead, List.append_assoc, ← List.append_assoc pre, List.cons_append,
        List.cons_append] at hsignature
      rw [hnew, hstart, List.append_assoc, ← List.append_assoc pre, List.cons_append, List.cons_append] at hown
      exact ⟨pre, (Text.eq_of_append_cons (by decide) hsignature hown).symm, hpre⟩
    · rw [Text.replaceFirst_of_absent hin, hsignature] at hown
      nomatch (List.append_cancel_left hown)
  · rintro ⟨pre, hbefore, hpre⟩ m -
    have hfound : h.signature.toList = pre ++ (sought ++ (rest.toList ++ p.after.toList)) := by
      rw [hsignature, hbefore, hsought]
      simp only [List.append_assoc]
    rw [hfound, replaceFirst_append hpre, hbefore]
    simp only [String.toList_append, List.append_assoc]

/-- **A hook of a file as the item of a module.** Its documentation declares the module's function, and nothing
else is changed but the signature; in the signature the name is replaced for every module if and only if it is
found. -/
theorem specialised_of_mem {source : String} (hh : h ∈ ofSource source) :
    ∃ (p : HeadParts h.name h.signature) (rest : String),
      p.tokens <:+: Php.tokens source ∧ h.name = lead ++ rest ∧
      (∀ m : String, (∀ c ∈ m.toList, Text.isWord c = true) →
        specialised h.completion m =
          { h.itemNamed p (m ++ "_" ++ rest) with insertText := some (h.renamed m).snippet }) ∧
      ((∀ m : String, (∀ c ∈ m.toList, Text.isWord c = true) →
        specialised h.completion m = h.itemNamed p (m ++ "_" ++ rest)) ↔ Found p) := by
  obtain ⟨⟨rest, hrest⟩, p, hp⟩ := exists_parts_of_mem hh
  have hname := isWordRest_of_parts hp
  refine ⟨p, rest, hp, hrest, fun m hm => specialised_completion hname hrest hm, ?_⟩
  rw [← found_iff p hrest]
  exact forall₂_congr fun m hm => specialised_eq_itemNamed_iff hname hrest p hm

/-- A hook with a parameter by reference. -/
def altering : Hook :=
  { name := "hook_a_alter"
    signature := "function hook_a_alter(array &$a)"
    parameters := ["array &$a"], summary := some "Alters it.", documented := true }

/-- Its stub is renamed: the keyword and one blank stand before the name. -/
theorem specialised_of_mem_altering :
    altering ∈ ofSource "<?php\n/** Alters it. */\nfunction hook_a_alter(array &$a) \x7b\x7d\n" ∧
      (∃ (p : HeadParts altering.name altering.signature) (rest : String),
        p.tokens <:+: Php.tokens "<?php\n/** Alters it. */\nfunction hook_a_alter(array &$a) \x7b\x7d\n" ∧
        altering.name = lead ++ rest ∧
        (∀ m : String, (∀ c ∈ m.toList, Text.isWord c = true) →
          specialised altering.completion m =
            { altering.itemNamed p (m ++ "_" ++ rest) with insertText := some (altering.renamed m).snippet }) ∧
        ((∀ m : String, (∀ c ∈ m.toList, Text.isWord c = true) →
          specialised altering.completion m = altering.itemNamed p (m ++ "_" ++ rest)) ↔ Found p) ∧ Found p) ∧
      (specialised altering.completion "my").insertText =
        some "/**\n * Implements hook_a_alter().\n */\nfunction my_a_alter(array &\\$a) \x7b\n\t$0\n\x7d" := by
  have hmem : altering ∈ ofSource "<?php\n/** Alters it. */\nfunction hook_a_alter(array &$a) \x7b\x7d\n" := by
    decide +kernel
  obtain ⟨p, rest, hp, hrest, hnamed, hfound⟩ := specialised_of_mem hmem
  -- the name stands in the signature at one place
  have hplace : ∀ k < altering.signature.toList.length,
      altering.name.toList <+: altering.signature.toList.drop k →
      altering.signature.toList.take k = "function ".toList := by decide
  have hsignature := p.toList_signature
  have hlength : p.before.toList.length < altering.signature.toList.length := by
    have hname : 0 < altering.name.toList.length := by decide
    rw [hsignature, List.length_append, List.length_append]
    omega
  have hbefore := hplace p.before.toList.length hlength
    ⟨p.after.toList, by rw [hsignature, List.drop_left]⟩
  rw [hsignature, List.take_left] at hbefore
  exact ⟨hmem, ⟨p, rest, hp, hrest, hnamed, hfound, found_of_before hbefore⟩, by decide +kernel⟩

/-- **A hook that returns a reference keeps its name** in the stub, and not in the documentation. -/
theorem ampersand_hides :
    (ofSource "<?php\n/** Gives it. */\nfunction &hook_foo() \x7b\x7d\n").map (fun h =>
        ((specialised h.completion "my").insertText, (specialised h.completion "my").documentation)) =
      [(some "/**\n * Implements hook_foo().\n */\nfunction &hook_foo() \x7b\n\t$0\n\x7d",
        some "```php\n<?php\nfunction my_foo() \x7b\x7d\n```\nGives it.")] := by decide +kernel

end Hook

end SiteAssist
