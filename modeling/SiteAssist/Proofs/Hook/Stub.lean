import SiteAssist.Hook
import SiteAssist.Proofs.Snippet.Grammar

/-!
# The stub of a hook

The snippet of a hook is a comment with its name, its signature and an empty body with one tab stop.  The
signature is source text and may hold dollar signs, braces, backslashes and what looks like a placeholder.
As a snippet it stands for itself (`stub_expands`): what is inserted is **the stub with the signature as it
is**, and the only place to go to is the one in the body.
-/

namespace SiteAssist.Hook

open Snippet (Part Plain ofText read? read?_nil read?_text read?_escape read?_stop)

/-- The comment above a stub. -/
def comment (name : String) : List Char :=
  "/**\n * Implements ".toList ++ name.toList ++ "().\n */\n".toList

/-- What opens the body of a stub. -/
def opening : List Char := " \x7b\n\t".toList

/-- What closes the body. -/
def closing : List Char := "\n\x7d".toList

theorem toList_snippet (h : Hook) :
    h.snippet.toList =
      comment h.name ++ (Snippet.escape h.signature.toList ++ (opening ++ ("$0".toList ++ closing))) := by
  have hbody : " \x7b\n\t$0\n\x7d".toList = opening ++ ("$0".toList ++ closing) := by decide
  have hsignature := @String.toList_ofList (Snippet.escape h.signature.toList)
  unfold snippet comment
  rw [String.toList_append, String.toList_append, String.toList_append, String.toList_append,
    hsignature, hbody]
  simp only [List.append_assoc]

theorem plain_of_isWordRest {s : List Char} (h : ∀ c ∈ s, Php.isWordRest c = true) : Plain s := by
  intro c hc
  constructor <;> rintro rfl <;> exact absurd (h _ hc) (by decide)

theorem plain_comment {name : String} (h : ∀ c ∈ name.toList, Php.isWordRest c = true) :
    Plain (comment name) := by
  have hlead : Plain "/**\n * Implements ".toList := by decide
  have hend : Plain "().\n */\n".toList := by decide
  unfold comment
  exact List.forall_mem_append.mpr ⟨List.forall_mem_append.mpr ⟨hlead, plain_of_isWordRest h⟩, hend⟩

/-- **The snippet of a hook stands for its stub**, whatever its signature: characters, and one tab stop in
the body. -/
theorem stub_expands (h : Hook) (hname : ∀ c ∈ h.name.toList, Php.isWordRest c = true) :
    ∃ text, h.completion.insertText = some text ∧ h.completion.insertFormat = .snippet ∧
      Snippet.read text.toList =
        Part.ofText ("/**\n * Implements ".toList ++ h.name.toList ++ "().\n */\n".toList ++
            h.signature.toList ++ " \x7b\n\t".toList) ++
          .stop 0 :: Part.ofText "\n\x7d".toList := by
  have hstop : read? ("$0".toList ++ closing) = some (.stop 0 :: ofText closing) := by
    have hzero : "$0".toList = '$' :: (toString 0).toList := by decide
    have hclosing : read? closing = some (ofText closing) := by
      have := read?_text (show Plain closing by decide) []
      rwa [List.append_nil, read?_nil, Option.map_some, List.append_nil] at this
    rw [hzero, read?_stop 0 (by simp [closing]), hclosing, Option.map_some]
  have hread : read? h.snippet.toList =
      some (ofText (comment h.name ++ h.signature.toList ++ opening) ++ .stop 0 :: ofText closing) := by
    have hopening : Plain opening := by decide
    rw [toList_snippet, read?_text (plain_comment hname), read?_escape, read?_text hopening, hstop]
    simp [ofText]
  refine ⟨h.snippet, rfl, rfl, ?_⟩
  rw [Snippet.read_of_read? hread, List.map_append, Snippet.map_part_ofText, List.map_cons,
    Snippet.map_part_ofText]
  rfl

/-- A hook with a default that looks like a placeholder and closes it. -/
def defaulted : Hook :=
  { name := "hook_a"
    signature := "function hook_a(\\N\\T $b = '\x24\x7b1:x\x7d', $c = '\\\\$0')"
    parameters := [], summary := none, documented := false }

/-- No default is taken for a placeholder. -/
theorem stub_expands_defaulted :
    (∀ c ∈ defaulted.name.toList, Php.isWordRest c = true) ∧
      ∃ text, defaulted.completion.insertText = some text ∧
        defaulted.completion.insertFormat = .snippet ∧
        Snippet.read text.toList =
          Part.ofText ("/**\n * Implements ".toList ++ "hook_a".toList ++ "().\n */\n".toList ++
              defaulted.signature.toList ++ " \x7b\n\t".toList) ++
            .stop 0 :: Part.ofText "\n\x7d".toList := by
  have hname : ∀ c ∈ defaulted.name.toList, Php.isWordRest c = true :=
    List.all_eq_true.mp (by decide)
  exact ⟨hname, stub_expands defaulted hname⟩

end SiteAssist.Hook
