import SiteAssist.Proofs.Snippet.Reading

/-!
# The grammar of snippets

An editor reads every text as a snippet (`read`).  A backslash before a character that means something takes
the meaning away.  A dollar sign starts a tab stop, if digits follow it, a variable, if a name does, or a
group, if braces do: a tab stop with a default or with choices, or a variable.  All else stands for itself.

What is read as characters and plain tab stops alone (`read?`) is **read the same by the whole grammar**
(`read_of_read?`).
-/

namespace SiteAssist.Snippet

/-- A part of a snippet. -/
inductive Part where
  | char (c : Char)
  | stop (number : Nat)
  | named (name : List Char)
  /-- what stands in braces after a dollar sign -/
  | group (inner : List Char)
  deriving Repr, DecidableEq

/-- A character of the name of a variable. -/
def isNamePart (c : Char) : Bool := c == '_' || c.isAlphanum

/-- What stands in braces up to the brace that closes them, and what comes after it. The number is that
of the groups that are open inside. -/
def closing? : Nat → List Char → Option (List Char × List Char)
  | _, [] => none
  | depth, '\\' :: c :: s => (closing? depth s).map (Prod.map (['\\', c] ++ ·) id)
  | depth, '$' :: '\x7b' :: s => (closing? (depth + 1) s).map (Prod.map (['$', '\x7b'] ++ ·) id)
  | 0, '\x7d' :: s => some ([], s)
  | depth + 1, '\x7d' :: s => (closing? depth s).map (Prod.map ('\x7d' :: ·) id)
  | depth, c :: s => (closing? depth s).map (Prod.map (c :: ·) id)

/-- The group after a dollar sign, if there is one. -/
def group? : List Char → Option (List Char × List Char)
  | '\x7b' :: s => closing? 0 s
  | _ => none

/-- What closes a group is a brace after its inside. -/
theorem eq_of_closing? {depth : Nat} {s : List Char} : ∀ {inner rest : List Char},
    closing? depth s = some (inner, rest) → s = inner ++ '\x7d' :: rest := by
  induction depth, s using closing?.induct <;> intro inner rest h
  case case1 => simp [closing?] at h
  case case4 =>
    obtain ⟨rfl, rfl⟩ : inner = [] ∧ _ = rest := by simpa [closing?] using h
    rfl
  all_goals
    rename_i ih
    simp only [closing?] at h
    obtain ⟨⟨inside, after⟩, hinside, heq⟩ := Option.map_eq_some_iff.mp h
    obtain ⟨rfl, rfl⟩ := Prod.mk.inj heq
    rw [ih hinside]
    rfl

theorem length_of_group? {s inner rest : List Char} (h : group? s = some (inner, rest)) :
    rest.length < s.length := by
  unfold group? at h
  split at h
  · rw [eq_of_closing? h, List.length_cons, List.length_append, List.length_cons]
    omega
  · simp at h

/-- A text as a snippet. -/
def read : List Char → List Part
  | [] => []
  | c :: cs =>
    if c = '\\' ∧ cs.head?.any isSpecial = true then (cs.take 1).map .char ++ read (cs.drop 1)
    else if c = '$' then
      if cs.takeWhile Char.isDigit ≠ [] then
        .stop (Nat.ofDigitChars 10 (cs.takeWhile Char.isDigit) 0) :: read (cs.dropWhile Char.isDigit)
      else if cs.takeWhile isNamePart ≠ [] then
        .named (cs.takeWhile isNamePart) :: read (cs.dropWhile isNamePart)
      else match _hgroup : group? cs with
        | some (inner, rest) => .group inner :: read rest
        | none => .char c :: read cs
    else .char c :: read cs
  termination_by s => s.length
  decreasing_by
  all_goals simp only [List.length_cons, List.length_drop]
  · omega
  · have := (List.dropWhile_suffix (l := cs) Char.isDigit).length_le
    omega
  · have := (List.dropWhile_suffix (l := cs) isNamePart).length_le
    omega
  · have := length_of_group? _hgroup
    omega
  · omega
  · omega

/-- A piece as a part. -/
def Piece.part : Piece → Part
  | .char c => .char c
  | .stop n => .stop n

/-- A text as parts. -/
def Part.ofText (s : List Char) : List Part := s.map .char

theorem map_part_ofText (s : List Char) : (ofText s).map Piece.part = Part.ofText s := by
  rw [ofText, List.map_map]
  rfl

/-- **The whole grammar reads characters and tab stops for what they are.** -/
theorem read_of_read? {s : List Char} : ∀ {pieces : List Piece},
    read? s = some pieces → read s = pieces.map Piece.part := by
  induction s using read?.induct with
  | case1 =>
    intro pieces h
    rw [read?, Option.some.injEq] at h
    rw [read, ← h]
    rfl
  | case2 cs =>
    rename_i hdigits
    intro pieces h
    rw [read?, if_pos rfl, if_pos hdigits] at h
    cases h
  | case3 cs =>
    rename_i hdigits ih
    intro pieces h
    rw [read?, if_pos rfl, if_neg hdigits] at h
    obtain ⟨rest, hrest, rfl⟩ := Option.map_eq_some_iff.mp h
    rw [read, if_neg (by simp), if_pos rfl, if_pos hdigits, ih hrest]
    rfl
  | case4 c cs hdollar hescaped ih =>
    intro pieces h
    rw [read?, if_neg hdollar, if_pos hescaped] at h
    obtain ⟨rest, hrest, rfl⟩ := Option.map_eq_some_iff.mp h
    rw [read, if_pos hescaped, ih hrest, List.map_append, List.map_map]
    rfl
  | case5 c cs hdollar hescaped ih =>
    intro pieces h
    rw [read?, if_neg hdollar, if_neg hescaped] at h
    obtain ⟨rest, hrest, rfl⟩ := Option.map_eq_some_iff.mp h
    rw [read, if_neg hescaped, if_neg hdollar, ih hrest]
    rfl

/-- Unescaped, the same characters are a group. -/
example : read "\x24\x7b1:x\x7d$0$a\\\x7d".toList =
    [.group "1:x".toList, .stop 0, .named ['a'], .char '\x7d'] := by decide +kernel

end SiteAssist.Snippet
