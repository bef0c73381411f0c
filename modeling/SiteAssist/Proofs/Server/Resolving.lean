import SiteAssist.Proofs.Offer.Callback
import SiteAssist.Proofs.Server.Items
import SiteAssist.Proofs.Server.Recall
import SiteAssist.Proofs.Server.Watching

/-!
# Items that come back to be resolved

An item of a template function leaves the server without its documentation and comes back to be resolved,
at any later time.  It carries the root of the site that offered it, and live sites have roots of their
own, so it finds that site again.  The site looks the callback up in the file of its class, of which it
remembers the first text that it could read.
-/

namespace SiteAssist

open Offer.Templates (Callback Outlines methodsAt methodsIn payload? callbackOf?)

/-! ## The payload of an item -/

/-- An item of a template function or filter, offered below a root. -/
structure Offer.Templates.Offered (root : Path) (k : Callback) (c : Completion) : Prop where
  proper : k.Proper
  root : payload? c "root" = some root.text
  callback : payload? c "callback" = some k.text
  undocumented : c.documentation = none
  inPlace : c.replaceRange = none
  present : ∃ d, c.data = some d ∧ d.isNull = false

theorem Offer.Templates.exists_offered {root : Path} {r : Request} {c : Completion}
    (h : c ∈ Offer.Templates.offered root r) : ∃ k, Offered root k c := by
  have hcompletion : ∀ s ∈ functions ++ filters, ∀ detail insert,
      ∃ k, Offered root k (completion root detail insert s) := by
    intro s hs detail insert
    obtain ⟨k, hk, htext⟩ := exists_callback s hs
    have hdata : (completion root detail insert s).data =
        some (.mkObject [("root", .string root.text), ("callback", .string s.fullCallback)]) := rfl
    refine ⟨k, hk, ?_, ?_, rfl, rfl, _, hdata, rfl⟩
    · rw [payload?, hdata, Option.bind_some, Json.get?_mkObject]
      rfl
    · rw [payload?, hdata, Option.bind_some, Json.get?_mkObject, ← htext]
      rfl
  rw [offered] at h
  split at h
  · simp at h
  · rcases List.mem_append.mp h with h | h
    · obtain ⟨s, hs, rfl⟩ := List.mem_map.mp h
      exact hcompletion s (List.mem_append_left _ hs) _ _
    · split at h
      · obtain ⟨s, hs, rfl⟩ := List.mem_map.mp h
        exact hcompletion s (List.mem_append_right _ hs) _ _
      · simp at h

namespace Server

/-! ## What is resolved -/

/-- What is left of an item when it is resolved. -/
def pendingOf (c : Completion) : Completion := { label := c.label, kind := .function, data := c.data }

theorem asked?_itemJson {root : Path} {k : Callback} {c : Completion}
    (h : Offer.Templates.Offered root k c) :
    Session.asked? (itemJson c) = some (pendingOf c) := by
  obtain ⟨d, hd, hnull⟩ := h.present
  have hlabel : (itemJson c).get? "label" = some (.string c.label) := by
    rw [get?_itemJson]
    rfl
  have hdoc : (itemJson c).get? "documentation" = none := by
    rw [get?_itemJson]
    show (some (c.documentation.map markdown)).join = none
    rw [h.undocumented]
    rfl
  have hdata : (itemJson c).get? "data" = some d := by
    rw [get?_itemJson]
    show (some c.data).join = some d
    rw [hd]
    rfl
  simp [Session.asked?, pendingOf, hlabel, hdoc, hdata, hd, hnull, Json.asString?]

/-- An offered item comes back as it was sent. -/
theorem read_itemJson_of_offered {root : Path} {k : Callback} {c : Completion}
    (h : Offer.Templates.Offered root k c) : Item.read (itemJson c) = .ok (itemJson c) := by
  refine read_itemJson (fun d hd => ?_) h.inPlace
  obtain ⟨d', hd', hnull⟩ := h.present
  rw [hd', Option.mem_some_iff] at hd
  exact hd ▸ hnull

/-- The summary of a method in the text of a class file. -/
def summaryIn? (k : Callback) (text : String) : Option String :=
  (Php.Method.docIn? (methodsIn text) k.method).bind DocComment.summary?

theorem summaryIn?_eq (k : Callback) (text : String) :
    summaryIn? k text = (Php.Method.docIn? (methodsIn text) k.method).bind DocComment.summary? := rfl

namespace Session

variable {s : Session} {tree : FileTree}

theorem documentation_resolve (tree : FileTree) (site : Site) {pending : Completion} {k : Callback}
    (hp : pending.documentation = none) (hproper : k.Proper)
    (hk : payload? pending "callback" = some k.text) (hroot : site.root.isAbsolute = true) :
    (site.resolve tree pending).1.documentation =
      ((methodsAt tree site.outlines (k.file site.root)).1.bind
        (Php.Method.docIn? · k.method)).bind DocComment.summary? := by
  rw [Site.resolve]
  dsimp only
  rw [Offer.Templates.fst_resolve hp hproper hk hroot]

/-- The owner of an item is found again, as no other live site has its root. -/
theorem find?_owner (ho : s.Orderly) {y : Site} (hy : y ∈ s.sites) {pending : Completion}
    (hroot : payload? pending "root" = some y.root.text) :
    s.sites.find? (·.owns pending) = some y := by
  have howns (z : Site) : z.owns pending = true ↔ z.root = y.root := by
    rw [Site.owns, Offer.Templates.owns, hroot, beq_iff_eq, Option.some.injEq]
    exact ⟨fun h => congrArg Path.mk h.symm, fun h => congrArg Path.text h.symm⟩
  cases hfind : s.sites.find? (·.owns pending) with
  | none =>
    have hno := List.find?_eq_none.mp hfind y hy
    exact absurd ((howns y).mpr rfl) hno
  | some z =>
    have hz := (howns z).mp (List.find?_some (p := fun x : Site => x.owns pending) hfind)
    have hzy : z = y :=
      ho.eq_of_root (List.mem_of_find?_eq_some hfind) hy (by rw [hz, Path.same, beq_self_eq_true])
    rw [hzy]

theorem mem_withSite {y z : Site} (hz : z ∈ s.sites) (h : z.id ≠ y.id) :
    z ∈ (s.withSite y).sites := by
  refine List.mem_map.mpr ⟨z, hz, if_neg ?_⟩
  rw [Site.same, beq_iff_eq]
  exact h

/-- What comes of an item that a live site has offered.  The site itself looks for the file of the
callback's class; what is documented is the first text of it that could be read. -/
theorem resolved_itemJson {looks : List Lookup} (ho : s.Orderly) (hrec : s.Recalls looks) {y : Site}
    (hy : y ∈ s.sites) {k : Callback} {c : Completion} (h : Offer.Templates.Offered y.root k c)
    (tree : FileTree) :
    let look : Lookup := ⟨y.id, k.file y.root, tree⟩
    s.lookup? tree (.resolve (itemJson c)) = some look ∧
      (∀ z ∈ s.sites, z.id ≠ y.id → z ∈ (s.resolved tree (itemJson c)).2.sites) ∧
      (s.resolved tree (itemJson c)).1 = .item (itemJson { c with
        documentation := (firstText? (looks ++ [look]) y.id look.file).bind (summaryIn? k) }) := by
  intro look
  have hasked := asked?_itemJson h
  have howner : s.sites.find? (·.owns (pendingOf c)) = some y := find?_owner ho hy h.root
  have hpayload : payload? (pendingOf c) "callback" = some k.text := h.callback
  have hcallback : callbackOf? (pendingOf c) = some (k.classText, k.method.toList) := by
    rw [callbackOf?, hpayload, Option.bind_some, Callback.cutFirst?_text h.proper]
  have hread : (methodsAt tree y.outlines look.file).1 =
      (firstText? (looks ++ [look]) y.id look.file).map methodsIn := by
    have hafter : outlinesAfter (some look) y = (methodsAt tree y.outlines look.file).2 := if_pos rfl
    rw [Offer.Templates.fst_methodsAt, ← hafter]
    exact methods?_outlinesAfter (hrec.recalled y hy look.file)
  have hdoc : (y.resolve tree (pendingOf c)).1.documentation =
      (firstText? (looks ++ [look]) y.id look.file).bind (summaryIn? k) := by
    rw [documentation_resolve tree y rfl h.proper hpayload (ho.absolute y hy), hread,
      Option.bind_map, Option.bind_assoc]
    simp only [Function.comp_apply, ← summaryIn?_eq]
  have hresolved := resolved_of_owner tree hasked howner
  refine ⟨?_, fun z hz hid => ?_, ?_⟩
  · rw [lookup?, hasked]
    simp only [Option.bind_eq_bind, Option.bind_some, howner, hcallback,
      Callback.classPath_classText h.proper (ho.absolute y hy)]
    rfl
  · rw [hresolved]
    exact mem_withSite hz hid
  · rw [hresolved, hdoc]
    cases (firstText? (looks ++ [look]) y.id look.file).bind (summaryIn? k) with
    | none => rw [replyOf, ← h.undocumented]
    | some text => rw [replyOf, documentedItem_itemJson]

theorem data_of_asked {item : Json} {pending : Completion} {d : Json} (h : asked? item = some pending)
    (hd : pending.data = some d) : item.get? "data" = some d := by
  simp only [asked?] at h
  split at h
  · simp at h
  · cases h
    exact (Option.filter_eq_some_iff.mp hd).1

/-- An item that no live site is to resolve. -/
inductive Unowned (s : Session) (item : Json) : Prop
  /-- it is documented -/
  | documented (d : Json) (given : item.get? "documentation" = some d) (present : d.isNull = false)
  /-- it has no payload -/
  | bare (none : ∀ d ∈ item.get? "data", d.isNull = true)
  /-- its payload names the root of no live site -/
  | stray (strange : ∀ x ∈ s.sites,
      ((item.get? "data").bind (·.get? "root")).bind Json.asString? ≠ some x.root.text)

theorem resolved_of_unowned (tree : FileTree) {item : Json} (h : s.Unowned item) :
    s.resolved tree item = (.item item, s) := by
  rw [resolved_eq]
  cases h with
  | documented d given present =>
    have hasked : asked? item = none := by simp [asked?, given, present]
    rw [hasked]
  | bare none =>
    have hasked : asked? item = .none := by
      have hdata : (item.get? "data").filter (!·.isNull) = .none := by
        rw [Option.filter_eq_none_iff]
        intro d hd
        simp [none d hd]
      simp [asked?, hdata]
    rw [hasked]
  | stray strange =>
    cases hasked : asked? item with
    | none => rfl
    | some pending =>
      have howner : s.sites.find? (·.owns pending) = none := by
        rw [List.find?_eq_none]
        intro x hx howns
        have hpayload : payload? pending "root" = some x.root.text := beq_iff_eq.mp howns
        obtain ⟨v, hv, hroot⟩ := Option.bind_eq_some_iff.mp hpayload
        obtain ⟨d, hd, hget⟩ := Option.bind_eq_some_iff.mp hv
        refine strange x hx ?_
        rw [data_of_asked hasked hd, Option.bind_some, hget]
        exact hroot
      dsimp only
      rw [howner]

/-! ## Requests -/

theorem exists_completions {uri : String} {position : Position} {items : List Completion}
    (h : (s.completions tree uri position).1 = .items items) :
    ∃ r : Request, items = (s.sitesOf r.path).flatMap (·.complete tree r) := by
  rw [completions] at h
  split at h
  · simp at h
  · rename_i r _
    split at h
    · simp at h
    · rename_i hsites
      refine ⟨r, ?_⟩
      dsimp only at h
      split at h
      · simp at h
      · simpa using h.symm

theorem executed_ne {command : String} {arguments : List Json} {items : List Completion} {t : Session} :
    s.executed tree command arguments ≠ .ok (.items items, t) := by
  intro h
  unfold executed at h
  split at h
  · simp at h
  · split at h
    · split at h <;> simp at h
    · simp at h

theorem exists_resolved (tree : FileTree) (s : Session) (item : Json) :
    ∃ v, (s.resolved tree item).1 = .item v := by
  rw [resolved_eq]
  split
  · exact ⟨_, rfl⟩
  · split <;> exact ⟨_, rfl⟩

/-- Items are the answer to a request for completions of a running session. -/
theorem items_of_answer {c : Call} {items : List Completion}
    (h : (s.outcome c).answer = .ok (.items items)) :
    s.phase = .running ∧
      ∃ r : Request, items = (s.sitesOf r.path).flatMap (·.complete c.tree r) := by
  cases hm : s.message? c with
  | none =>
    obtain ⟨_, ⟨e, he⟩, _⟩ := outcome_of_none hm
    simp [he] at h
  | some m =>
    obtain ⟨_, _, hanswer, hmethod, href⟩ := outcome_of_message hm
    rw [hanswer] at h
    split at h
    · cases m with
      | completion uri position =>
        have hentered : s.entered c.method = s :=
          entered_of_ne s (by simp [← hmethod, Message.method])
        have hphase : s.phase = .running := by
          rcases cases_of_refusal_none href with hexit | ⟨_, hinit⟩ | ⟨hphase, _⟩
          · simp [← hmethod, Message.method] at hexit
          · simp [← hmethod, Message.method] at hinit
          · exact hphase
        have hcompletions : (s.completions c.tree uri position).1 = .items items := by
          rw [hentered] at h
          exact Except.ok.inj h
        exact ⟨hphase, exists_completions hcompletions⟩
      | executeCommand command arguments =>
        simp only [handle] at h
        split at h
        · rename_i he
          simp only [Except.ok.injEq] at h
          exact absurd (h ▸ he) executed_ne
        · simp at h
      | resolve item =>
        obtain ⟨v, hv⟩ := exists_resolved c.tree (s.entered c.method) item
        simp [handle, hv] at h
      | _ => simp [handle, Outcome.ofSent] at h
    · simp at h

theorem handle_resolve (tree : FileTree) (s : Session) (item : Json) :
    s.handle tree (.resolve item) =
      { session := (s.resolved tree item).2, answer := .ok (s.resolved tree item).1 } := rfl

/-- A request to resolve an item. -/
def resolving (tree : FileTree) (item : Json) : Call := ⟨tree, "completionItem/resolve", some item⟩

theorem outcome_resolving (hs : s.phase = .running) (tree : FileTree) {v item : Json}
    (hread : Item.read v = .ok item) :
    let call := resolving tree v
    s.message? call = some (.resolve item) ∧
      (s.outcome call).session = (s.resolved tree item).2 ∧
      (s.outcome call).answer = .ok (s.resolved tree item).1 := by
  intro call
  have hm : s.message? call = some (.resolve item) := by
    have hpass : refusal? .running "completionItem/resolve" = none := rfl
    have hdecode : Message.decode "completionItem/resolve" (some v) = .ok (.resolve item) := by
      show ((Item.read v).map Message.resolve).mapError DecodeError.misshapen = _
      rw [hread]
      rfl
    rw [message?, hs]
    show (if (refusal? .running "completionItem/resolve").isSome then none
      else (Message.decode "completionItem/resolve" (some v)).toOption) = _
    rw [hpass, hdecode]
    rfl
  have hentered : s.entered call.method = s := by
    have hends : ¬("completionItem/resolve" = "shutdown" ∨ "completionItem/resolve" = "exit") := by
      decide
    exact entered_of_ne s hends
  have hrequest : isRequestMethod call.method = true := by
    show isRequestMethod "completionItem/resolve" = true
    decide
  obtain ⟨hsession, _, hanswer, _⟩ := outcome_of_message hm
  rw [hentered, handle_resolve] at hsession hanswer
  rw [if_pos hrequest] at hanswer
  exact ⟨hm, hsession, hanswer⟩

/-! ## Resolving at any later time -/

/-- An item with a payload that a site offers names the site and a callback. -/
theorem exists_offered_of_payload (ho : s.Orderly) {x : Site} (hx : x ∈ s.sites) {r : Request}
    {c : Completion} (hc : c ∈ x.complete tree r) (hdata : c.data ≠ none) :
    c ∈ Offer.Templates.offered x.root r ∧ ∃ k, Offer.Templates.Offered x.root k c := by
  have hmem := Site.mem_templates_of_payload (ho.noPayload x hx) hc hdata
  exact ⟨hmem, Offer.Templates.exists_offered hmem⟩

/-- An item with a payload in an answer is from one live site alone. -/
theorem exists_provider (ho : s.Orderly) {ask : Call} {items : List Completion} {c : Completion}
    (h : (s.outcome ask).answer = .ok (.items items)) (hc : c ∈ items) (hdata : c.data ≠ none) :
    ∃ x ∈ s.sites, (∀ z ∈ s.sites, (∃ r, c ∈ z.complete ask.tree r) ↔ z = x) ∧
      (∃ r, c ∈ Offer.Templates.offered x.root r) ∧ ∃ k, Offer.Templates.Offered x.root k c := by
  obtain ⟨_, r, rfl⟩ := items_of_answer h
  obtain ⟨x, hx, hcx⟩ := List.mem_flatMap.mp hc
  have hx : x ∈ s.sites := List.mem_of_mem_filter hx
  obtain ⟨hoffered, k, hk⟩ := exists_offered_of_payload ho hx hcx hdata
  refine ⟨x, hx, fun z hz => ⟨fun ⟨r', hcz⟩ => ?_, fun hzx => ⟨r, hzx ▸ hcx⟩⟩, ⟨r, hoffered⟩, k, hk⟩
  obtain ⟨_, k', hk'⟩ := exists_offered_of_payload ho hz hcz hdata
  have htext : z.root.text = x.root.text := Option.some.inj (hk'.root.symm.trans hk.root)
  have hroot : z.root = x.root := congrArg Path.mk htext
  exact ho.eq_of_root hz hx (by rw [hroot, Path.same, beq_self_eq_true])

/-- **What comes of items that are sent to be resolved**, after any calls.

The first part is about an item with a payload in the answer to an earlier call.  One site has offered it,
a function or filter of templates, with a proper callback.  As long as that site is live, at the root that
it had, a request to resolve the item asks this site for the file of the callback's class, leaves every
other site as it is, and gives the item back with no more than a documentation added: the summary of the
callback's method in the text of that file **at the first lookup of this site that could read it**, this
one included.

The second part is about any item that is sent in the shape of the protocol and that no live site is to
resolve: it comes back as it is read, and the session stays as it is.  If its members are all known ones,
present and read as they are, it comes back as it was sent. -/
theorem offered_item_resolves (before later : List Call) (ask : Call)
    (hrun : (after {} (before ++ ask :: later)).phase = .running) :
    let calls := before ++ ask :: later
    let s := after {} calls
    (∀ items c, ((after {} before).outcome ask).answer = .ok (.items items) → c ∈ items →
      c.data ≠ none →
      ∃ x ∈ (after {} before).sites,
        (∀ z ∈ (after {} before).sites, (∃ r, c ∈ z.complete ask.tree r) ↔ z = x) ∧
        (∃ r, c ∈ Offer.Templates.offered x.root r) ∧
        ∃ k : Callback, k.Proper ∧ payload? c "callback" = some k.text ∧
          ∀ y ∈ s.sites, y.id = x.id → ∀ tree,
            let call := resolving tree (itemJson c)
            let looks := lookups {} (calls ++ [call])
            y.root = x.root ∧ looks = lookups {} calls ++ [⟨x.id, k.file x.root, tree⟩] ∧
              (∀ z ∈ s.sites, z.id ≠ x.id → z ∈ (s.outcome call).session.sites) ∧
              (s.outcome call).answer = .ok (.item (itemJson { c with
                documentation := (firstText? looks x.id (k.file x.root)).bind (summaryIn? k) }))) ∧
    ∀ tree ms item, Item.read (.object ms) = .ok item → s.Unowned item →
      (s.outcome (resolving tree (.object ms))).session = s ∧
      (s.outcome (resolving tree (.object ms))).answer = .ok (.item item) ∧
      ((∀ m ∈ ms, Item.Exact Item.slots m) → item = .object ms) := by
  intro calls s
  have hr := running_of_phase calls hrun
  refine ⟨fun items c hanswer hc hdata => ?_, fun tree ms item hread hun => ?_⟩
  · obtain ⟨hs₀, _⟩ := items_of_answer hanswer
    have ho₀ := (running_of_phase before hs₀).orderly
    obtain ⟨x, hx, honly, hoffered, k, hk⟩ := exists_provider ho₀ hanswer hc hdata
    refine ⟨x, hx, honly, hoffered, k, hk.proper, hk.callback, fun y hy hid tree => ?_⟩
    intro call looks
    have hroot : y.root = x.root := (follows_of_phase hs₀ hrun).root_eq ho₀ hx hy hid
    obtain ⟨hm, hsession, hreply⟩ := outcome_resolving hr.phase tree (read_itemJson_of_offered hk)
    obtain ⟨hlook, hothers, hitem⟩ := resolved_itemJson hr.orderly hr.recalls hy (hroot ▸ hk) tree
    rw [hroot, hid] at hlook hitem
    have hlooks : looks = lookups {} calls ++ [⟨x.id, k.file x.root, tree⟩] := by
      show lookups {} (calls ++ [call]) = _
      rw [lookups_concat]
      show _ ++ ((s.message? call).bind (s.lookup? tree)).toList = _
      rw [hm, Option.bind_some, hlook]
      rfl
    refine ⟨hroot, hlooks, fun z hz hne => ?_, ?_⟩
    · rw [hsession]
      exact hothers z hz (hid ▸ hne)
    · rw [hreply, hitem, hlooks]
  · obtain ⟨_, hsession, hreply⟩ := outcome_resolving hr.phase tree hread
    rw [resolved_of_unowned tree hun] at hsession hreply
    exact ⟨hsession, hreply, fun hexact => Item.eq_of_object hexact hread⟩

/-- A class of template functions, one of them documented. -/
def classText : String :=
  "<?php\n\nclass TwigExtension \x7b\n  /**\n   * Generates a URL.\n   */\n" ++
    "  public function getUrl() \x7b\x7d\n\x7d\n"

/-- The one site with the file of the class. -/
def classSite : FileTree :=
  ⟨oneSite.entries ++
    [(["site", "web"], .directory), (["site", "web", "core"], .directory),
     (["site", "web", "core", "lib"], .directory),
     (["site", "web", "core", "lib", "Drupal"], .directory),
     (["site", "web", "core", "lib", "Drupal", "Core"], .directory),
     (["site", "web", "core", "lib", "Drupal", "Core", "Template"], .directory),
     (["site", "web", "core", "lib", "Drupal", "Core", "Template", "TwigExtension.php"],
      .file classText.toUTF8)]⟩

/-- A template is opened in the one site. -/
def opening : List Call :=
  [⟨oneSite, "initialize", some (watchingParams ["file:///site"])⟩,
   ⟨oneSite, "initialized", some (.object [])⟩,
   ⟨oneSite, "textDocument/didOpen", some (.mkObject
      [("textDocument", .mkObject
        [("uri", .string "file:///site/a.twig"), ("languageId", .string "twig"),
         ("version", .nat 1), ("text", .string "u")])])⟩]

/-- Completions are asked for in the template. -/
def asking : Call :=
  ⟨oneSite, "textDocument/completion", some (.mkObject
    [("textDocument", .mkObject [("uri", .string "file:///site/a.twig")]),
     ("position", positionJson 0 1)])⟩

/-- While the class has a file, another item of it is resolved. -/
def resolvingOther : Call :=
  resolving classSite (.mkObject
    [("label", .string "path"),
     ("data", .mkObject
        [("root", .string "/site"),
         ("callback", .string "\\Drupal\\Core\\Template\\TwigExtension::getPath")])])

/-- The items of an answer, if it is one of items. -/
def itemsIn : Except Refusal Reply → List Completion
  | .ok (.items items) => items
  | _ => []

theorem exists_items_of_mem {answer : Except Refusal Reply} {c : Completion}
    (h : c ∈ itemsIn answer) : ∃ items, answer = .ok (.items items) ∧ c ∈ items := by
  unfold itemsIn at h
  split at h
  · exact ⟨_, rfl, h⟩
  · simp at h

/-- The file of the class was there for another item alone, and is documented from all the same. -/
theorem offered_item_resolves_gone :
    (after {} (opening ++ asking :: [resolvingOther])).phase = .running ∧
      ∃ items, ((after {} opening).outcome asking).answer = .ok (.items items) ∧
        ∃ c ∈ items,
          payload? c "callback" = some "\\Drupal\\Core\\Template\\TwigExtension::getUrl" ∧
          ((after {} (opening ++ asking :: [resolvingOther])).outcome
              (resolving oneSite (itemJson c))).answer =
            .ok (.item (itemJson { c with documentation := some "Generates a URL." })) := by
  let url : Callback := ⟨["Drupal", "Core", "Template"], "TwigExtension", "getUrl"⟩
  have hurl : url.Proper ∧ "\\Drupal\\Core\\Template\\TwigExtension::getUrl" = url.text := by
    decide +kernel
  obtain ⟨hrun, hsites, hlive, hread⟩ :
      (after {} (opening ++ asking :: [resolvingOther])).phase = .running ∧
      (∀ x ∈ (after {} opening).sites, x.id = 1 ∧ x.root.text = "/site") ∧
      (∃ y ∈ (after {} (opening ++ asking :: [resolvingOther])).sites, y.id = 1) ∧
      firstText? (lookups {} (opening ++ asking :: [resolvingOther])) 1 (url.file ⟨"/site"⟩) =
        some classText := by
    decide +kernel
  have hsummary : summaryIn? url classText = some "Generates a URL." := by
    decide +kernel
  have hoffered : (itemsIn ((after {} opening).outcome asking).answer).any (payload? · "callback" ==
      some "\\Drupal\\Core\\Template\\TwigExtension::getUrl") = true := by
    decide +kernel
  obtain ⟨c, hc, hcallback⟩ := List.any_eq_true.mp hoffered
  obtain ⟨items, hanswer, hc⟩ := exists_items_of_mem hc
  rw [beq_iff_eq] at hcallback
  have hdata : c.data ≠ none := by
    intro hnone
    simp [payload?, hnone] at hcallback
  obtain ⟨x, hx, _, _, k, hk, htext, hresolves⟩ :=
    (offered_item_resolves opening [resolvingOther] asking hrun).1 items c hanswer hc hdata
  have hsame : k.text = url.text :=
    (Option.some.inj (htext.symm.trans hcallback)).trans hurl.2
  obtain rfl : k = url := Callback.text_inj hk hurl.1 hsame
  obtain ⟨y, hy, hid⟩ := hlive
  obtain ⟨hone, hroot⟩ := hsites x hx
  obtain ⟨_, hlooks, _, hreply⟩ := hresolves y hy (hid.trans hone.symm) oneSite
  have hsite : x.root = ⟨"/site"⟩ := congrArg Path.mk hroot
  rw [hlooks, firstText?_concat, hone, hsite, hread, Option.some_or, Option.bind_some, hsummary]
    at hreply
  exact ⟨hrun, items, hanswer, c, hc, hcallback, hreply⟩

end Session

end Server

end SiteAssist
