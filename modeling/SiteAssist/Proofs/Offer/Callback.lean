import Mathlib.Data.List.TakeWhile
import SiteAssist.Offer.Templates
import SiteAssist.Proofs.Path.Spelling

/-!
# The callbacks of template functions

The callback of a template function is a method of a class, written with the namespaces of the class.
The class is declared in a file whose directories are those namespaces (`classPath_classText`), and every
function and filter that is offered has a callback of this form (`exists_callback`).

A class file is read once: `methods?_methodsAt` says what one lookup remembers, and `fst_resolve` what it
makes of the item that is resolved.
-/

namespace SiteAssist

/-! ## Files with an extension -/

theorem Path.stem_eq {name : List Char} (h : '.' ∉ name) : Path.stem name = name := by
  have hnone : name.reverse.dropWhile (· ≠ '.') = [] := by
    rw [List.dropWhile_eq_nil_iff]
    intro c hc
    rw [decide_eq_true_iff]
    rintro rfl
    exact h (List.mem_reverse.mp hc)
  rw [Path.stem, hnone]
  rfl

/-- A name without a dot gets an extension at its end. -/
theorem Path.withExtension_join {p : Path} (h : p.isAbsolute = true) {n : String}
    (hn : IsFileName n) (hdot : '.' ∉ n.toList) {extension : String}
    (he : '/' ∉ extension.toList) :
    (p.join n).withExtension extension = p.join (n ++ "." ++ extension) := by
  have hlast : '/' ∉ (n ++ "." ++ extension).toList := by
    simp [String.toList_append, hn.2.2.2, he]
  have hname : (p.join n).fileName? = some n := by
    rw [fileName?, steps_join h hn.2.2.2, hn.stepOf?]
    simp
  have htrim : trimPieces (pieces (p.join n).text.toList) = [] :: (p.bodyPieces ++ [n.toList]) := by
    rw [pieces_of_isAbsolute (isAbsolute_join h hn.2.2.2), tailPieces_join h hn.2.2.2]
    refine trimPieces_eq fun q hq => ?_
    rw [← List.cons_append, List.getLast?_concat, Option.mem_some_iff] at hq
    rw [← hq, hn.stepOf?]
    simp
  have hpieces : pieces (p.join (n ++ "." ++ extension)).text.toList =
      [] :: p.bodyPieces ++ [n.toList ++ '.' :: extension.toList] := by
    rw [pieces_of_isAbsolute (isAbsolute_join h hlast), tailPieces_join h hlast,
      String.toList_append, String.toList_append, List.append_assoc, List.cons_append]
    rfl
  refine ext_toList ?_
  rw [withExtension, hname]
  dsimp only
  rw [htrim, stem_eq hdot, String.toList_ofList, ← List.cons_append, List.dropLast_concat, ← hpieces,
    pieces, List.intercalate_splitOn]

namespace Offer.Templates

/-- A method of a class: the namespaces of the class, its name, and the name of the method. -/
structure Callback where
  spaces : List String
  className : String
  method : String

namespace Callback

/-- The class with its namespaces, as it is written. -/
def classText (k : Callback) : List Char :=
  (k.spaces ++ [k.className]).flatMap fun n => '\\' :: n.toList

/-- The callback as it is written. -/
def text (k : Callback) : String := String.ofList (k.classText ++ ':' :: ':' :: k.method.toList)

/-- The file of the class in a site. -/
def file (k : Callback) (root : Path) : Path :=
  root.extend (["web", "core", "lib"] ++ k.spaces ++ [k.className ++ ".php"])

/-- The names of a callback can be names of directories and of a file. -/
def Proper (k : Callback) : Prop :=
  (∀ n ∈ k.spaces ++ [k.className], Path.IsFileName n ∧ '\\' ∉ n.toList ∧ ':' ∉ n.toList) ∧
    '.' ∉ k.className.toList

instance (k : Callback) : Decidable k.Proper := inferInstanceAs (Decidable (_ ∧ _))

/-- The names of a class and that of a method, in the text of a callback. -/
def namesIn (text : List Char) : List (List Char) × List Char :=
  let (className, method) := (Text.cutFirst? [':', ':'] text).getD ([], [])
  ((className.drop 1).splitOn '\\', method)

/-- The characters of a name, none of them with a meaning in a path or a callback. -/
def IsPlainName (n : List Char) : Prop := n ≠ [] ∧ '.' ∉ n ∧ '/' ∉ n ∧ '\\' ∉ n ∧ ':' ∉ n

instance (n : List Char) : Decidable (IsPlainName n) := inferInstanceAs (Decidable (_ ∧ _))

theorem IsPlainName.isFileName {n : List Char} (h : IsPlainName n) :
    Path.IsFileName (String.ofList n) := by
  obtain ⟨hne, hdot, hslash, _⟩ := h
  refine ⟨fun heq => ?_, fun heq => ?_, fun heq => ?_, ?_⟩
  · exact hne (Path.ofList_eq_iff.mp heq)
  · rw [Path.ofList_eq_iff.mp heq] at hdot
    exact hdot (by decide)
  · rw [Path.ofList_eq_iff.mp heq] at hdot
    exact hdot (by decide)
  · rw [String.toList_ofList]
    exact hslash

theorem proper_of_plain {spaces : List (List Char)} {name : List Char} (method : List Char)
    (h : ∀ n ∈ spaces ++ [name], IsPlainName n) :
    Proper ⟨spaces.map String.ofList, String.ofList name, String.ofList method⟩ := by
  have hname : IsPlainName name := h name (by simp)
  have hnames : ∀ n ∈ (spaces ++ [name]).map String.ofList,
      Path.IsFileName n ∧ '\\' ∉ n.toList ∧ ':' ∉ n.toList := by
    intro n hn
    obtain ⟨cs, hcs, rfl⟩ := List.mem_map.mp hn
    have hplain := h cs hcs
    rw [String.toList_ofList]
    exact ⟨hplain.isFileName, hplain.2.2.2⟩
  rw [List.map_append] at hnames
  refine ⟨hnames, ?_⟩
  rw [String.toList_ofList]
  exact hname.2.1

end Callback

/-- A text that is made of plain names in the way of a callback. -/
def IsCallbackText (text : List Char) : Prop :=
  (Callback.namesIn text).1 ≠ [] ∧ (∀ n ∈ (Callback.namesIn text).1, Callback.IsPlainName n) ∧
    text = ((Callback.namesIn text).1.flatMap fun n => '\\' :: n) ++
      ':' :: ':' :: (Callback.namesIn text).2

instance (text : List Char) : Decidable (IsCallbackText text) := inferInstanceAs (Decidable (_ ∧ _))

theorem IsCallbackText.exists_callback {text : String} (h : IsCallbackText text.toList) :
    ∃ k : Callback, k.Proper ∧ text = k.text := by
  obtain ⟨hne, hplain, htext⟩ := h
  generalize Callback.namesIn text.toList = parts at hne hplain htext
  obtain ⟨spaces, name, hnames⟩ : ∃ spaces name, parts.1 = spaces ++ [name] :=
    ⟨_, _, (List.dropLast_concat_getLast hne).symm⟩
  rw [hnames] at hplain htext
  refine ⟨_, Callback.proper_of_plain parts.2 hplain, String.toList_injective ?_⟩
  rw [htext, Callback.text, Callback.classText]
  simp [List.flatMap_map]

/-- The text of a callback with its namespace, by its characters. -/
def fullText (callback : List Char) : List Char :=
  if callback.head? = some '\\' then callback else callbackNamespace.toList ++ callback

theorem TemplateSymbol.toList_fullCallback (s : TemplateSymbol) :
    s.fullCallback.toList = fullText s.callback.toList := by
  rw [fullCallback, fullText]
  split
  · rfl
  · rw [String.toList_append]

/-- **Every function and filter has such a callback.** -/
theorem exists_callback : ∀ s ∈ functions ++ filters,
    ∃ k : Callback, k.Proper ∧ s.fullCallback = k.text := by
  have hall : ∀ cs ∈ (functions ++ filters).map (·.callback.toList), IsCallbackText (fullText cs) := by
    -- the literals are turned into characters one by one, which is slow for the kernel
    simp only [functions, filters, List.cons_append, List.nil_append, List.map_cons, List.map_nil,
      String.reduceToList, fullText, callbackNamespace]
    decide +kernel
  intro s hs
  have htext := hall _ (List.mem_map_of_mem hs)
  rw [← s.toList_fullCallback] at htext
  exact htext.exists_callback

/-- A text without colons is cut at the first pair of them. -/
theorem cutFirst?_colons {s t : List Char} (h : ':' ∉ s) :
    Text.cutFirst? [':', ':'] (s ++ ':' :: ':' :: t) = some (s, t) := by
  induction s with
  | nil => rfl
  | cons c s ih =>
    have hc : ':' ≠ c := fun heq => h (heq ▸ List.mem_cons_self)
    have hs : ':' ∉ s := fun hm => h (List.mem_cons_of_mem c hm)
    have hno : Text.stripPrefix? [':', ':'] (c :: (s ++ ':' :: ':' :: t)) = none := by
      rw [Text.stripPrefix?, if_neg hc]
    rw [List.cons_append, Text.cutFirst?, hno]
    dsimp only
    rw [ih hs]
    rfl

namespace Callback

variable {k : Callback}

theorem cutFirst?_text (h : k.Proper) :
    Text.cutFirst? [':', ':'] k.text.toList = some (k.classText, k.method.toList) := by
  rw [text, String.toList_ofList]
  refine cutFirst?_colons fun hmem => ?_
  obtain ⟨n, hn, hc⟩ := List.mem_flatMap.mp hmem
  rcases List.mem_cons.mp hc with hc | hc
  · simp at hc
  · exact (h.1 n hn).2.2 hc

theorem flatMap_backslash {names : List String} (h : names ≠ []) :
    (names.flatMap fun n => '\\' :: n.toList) = '\\' :: List.intercalate ['\\'] (names.map String.toList) := by
  induction names with
  | nil => exact absurd rfl h
  | cons n ns ih =>
    by_cases hns : ns = []
    · subst hns
      simp
    · rw [List.flatMap_cons, ih hns, List.map_cons, List.intercalate_cons_of_ne_nil (by simpa using hns)]
      simp

/-- The names of a class are what its text is split into. -/
theorem splitOn_classText (h : k.Proper) :
    (k.classText.dropWhile (· = '\\')).splitOn '\\' =
      (k.spaces ++ [k.className]).map String.toList := by
  have hne : k.spaces ++ [k.className] ≠ [] := by simp
  have hhead :
      (List.intercalate ['\\'] ((k.spaces ++ [k.className]).map String.toList)).dropWhile (· = '\\') =
      List.intercalate ['\\'] ((k.spaces ++ [k.className]).map String.toList) := by
    obtain ⟨n, ns, hn⟩ := List.exists_cons_of_ne_nil hne
    have hproper := h.1 n (by rw [hn]; exact List.mem_cons_self)
    obtain ⟨c, cs, hc⟩ := List.exists_cons_of_ne_nil hproper.1.toList_ne_nil
    have hslash : c ≠ '\\' := fun heq => hproper.2.1 (by rw [hc, heq]; exact List.mem_cons_self)
    rw [hn, List.map_cons, hc]
    simp [hslash]
  rw [classText, flatMap_backslash hne, List.dropWhile_cons_of_pos (by simp), hhead]
  refine List.splitOn_intercalate _ (fun p hp => ?_) (by simp)
  obtain ⟨n, hn, rfl⟩ := List.mem_map.mp hp
  exact (h.1 n hn).2.1

/-- No two proper callbacks have one text. -/
theorem text_inj {j : Callback} (h : k.Proper) (hj : j.Proper) (heq : k.text = j.text) : k = j := by
  have hcut := cutFirst?_text h
  rw [heq, cutFirst?_text hj, Option.some.injEq, Prod.mk.injEq] at hcut
  obtain ⟨hclass, hmethod⟩ := hcut
  have hnames := splitOn_classText h
  rw [← hclass, splitOn_classText hj] at hnames
  have hlist : j.spaces ++ [j.className] = k.spaces ++ [k.className] :=
    List.map_inj_right (fun _ _ => String.toList_injective) |>.mp hnames
  obtain ⟨hspaces, hname⟩ := List.append_inj' hlist rfl
  obtain ⟨spaces, className, method⟩ := k
  obtain ⟨spaces', className', method'⟩ := j
  cases hspaces
  cases hname
  cases String.toList_injective hmethod
  rfl

theorem join_library {root : Path} (h : root.isAbsolute = true) :
    root.join "web/core/lib" = root.extend ["web", "core", "lib"] := by
  have hweb : Path.IsFileName "web" := by decide
  have hcore : Path.IsFileName "core" := by decide
  have habs := Path.isAbsolute_join h hweb.2.2.2
  have habs' := Path.isAbsolute_join habs hcore.2.2.2
  have hcoreText : ((root.join "web").join "core").text.toList =
      (root.join "web").text.toList ++ ['/'] ++ "core".toList := by
    rw [Path.toList_join habs (by decide), if_neg (Path.getLast?_join h hweb)]
  have hlibText : (((root.join "web").join "core").join "lib").text.toList =
      ((root.join "web").join "core").text.toList ++ ['/'] ++ "lib".toList := by
    rw [Path.toList_join habs' (by decide), if_neg (Path.getLast?_join habs hcore)]
  refine Path.ext_toList ?_
  rw [Path.extend_cons, Path.extend_cons, Path.extend_cons, Path.extend_nil, hlibText, hcoreText,
    Path.toList_join h hweb.2.2.2, Path.toList_join_of_head? h (by decide)]
  simp

/-- **A class is declared in the file of its name**, in the directories of its namespaces. -/
theorem classPath_classText (h : k.Proper) {root : Path} (hroot : root.isAbsolute = true) :
    classPath root k.classText = k.file root := by
  have hnames : ∀ n ∈ ["web", "core", "lib"] ++ k.spaces, Path.IsFileName n := by
    intro n hn
    rcases List.mem_append.mp hn with hn | hn
    · have hfixed : ∀ n ∈ ["web", "core", "lib"], Path.IsFileName n := by decide
      exact hfixed n hn
    · exact (h.1 n (List.mem_append_left _ hn)).1
  have hclass := h.1 k.className (by simp)
  have hparts : ((k.spaces ++ [k.className]).map String.toList).foldl
      (fun p part => p.join (String.ofList part)) (root.join "web/core/lib") =
        (root.extend (["web", "core", "lib"] ++ k.spaces)).join k.className := by
    rw [List.foldl_map, join_library hroot, ← Path.extend_concat, List.append_assoc,
      Path.extend_append]
    simp only [String.ofList_toList]
    rfl
  rw [classPath, splitOn_classText h, hparts, Path.withExtension_join (Path.isAbsolute_extend hroot hnames) hclass.1 h.2 (by decide),
    file, Path.extend_concat, String.append_assoc]
  rfl

end Callback

/-! ## What is remembered of class files -/

/-- The methods that are declared in a text. -/
def methodsIn (text : String) : List Php.Method := Php.methodsOf (Php.outline text)

/-- The methods that are remembered of a file. -/
def Outlines.methods? (o : Outlines) (p : Path) : Option (List Php.Method) :=
  (o.find? (·.1.same p)).map Prod.snd

variable {tree : FileTree} {o : Outlines} {file p : Path}

theorem Outlines.methods?_congr (h : file.same p = true) : o.methods? file = o.methods? p := by
  simp only [methods?, Path.same_congr h]

/-- **A lookup adds what can be read**, of its own file and if nothing is remembered of it. -/
theorem methods?_methodsAt (tree : FileTree) (o : Outlines) (file p : Path) :
    Outlines.methods? (methodsAt tree o file).2 p =
      (o.methods? p).or (if file.same p then (tree.readText? file).map methodsIn else none) := by
  rw [methodsAt]
  cases hf : o.find? (·.1.same file) with
  | some found =>
    dsimp only
    by_cases hp : file.same p = true
    · have hsome : o.methods? p = some found.2 := by
        rw [← Outlines.methods?_congr hp, Outlines.methods?, hf]
        rfl
      rw [hsome, Option.some_or]
    · rw [if_neg hp, Option.or_none]
  | none =>
    cases hr : tree.readText? file with
    | none =>
      dsimp only
      rw [Option.map_none, ite_self, Option.or_none]
    | some text =>
      dsimp only
      rw [Outlines.methods?, Outlines.methods?, List.find?_append]
      cases o.find? (·.1.same p) with
      | some found => rfl
      | none =>
        rw [Option.none_or, Option.map_none, Option.none_or, List.find?_singleton]
        by_cases hp : file.same p = true
        · rw [if_pos hp, if_pos hp]
          rfl
        · rw [if_neg hp, if_neg hp]
          rfl

/-- What a lookup gives is what is remembered then. -/
theorem fst_methodsAt (tree : FileTree) (o : Outlines) (file : Path) :
    (methodsAt tree o file).1 = Outlines.methods? (methodsAt tree o file).2 file := by
  rw [methods?_methodsAt, methodsAt, Outlines.methods?]
  have hself : file.same file = true := Path.same_iff.mpr rfl
  cases hf : o.find? (·.1.same file) with
  | some found => rfl
  | none =>
    rw [Option.map_none, Option.none_or, if_pos hself]
    cases tree.readText? file <;> rfl

/-- **A callback is resolved by the methods** that a lookup of its class file gives. -/
theorem fst_resolve {root : Path} {item : Completion} {k : Callback} (hitem : item.documentation = none)
    (hk : k.Proper) (hcallback : payload? item "callback" = some k.text) (hroot : root.isAbsolute = true) :
    (resolve tree root o item).1 = { item with
      documentation := ((methodsAt tree o (k.file root)).1.bind
        (Php.Method.docIn? · k.method)).bind DocComment.summary? } := by
  have hparts : callbackOf? item = some (k.classText, k.method.toList) := by
    rw [callbackOf?, hcallback, Option.bind_some, Callback.cutFirst?_text hk]
  rw [resolve, hitem, hparts]
  dsimp only
  rw [Callback.classPath_classText hk hroot, String.ofList_toList]
  split
  · rename_i summary hsummary
    rw [hsummary]
  · rename_i hsummary
    rw [hsummary, ← hitem]

end Offer.Templates

end SiteAssist
