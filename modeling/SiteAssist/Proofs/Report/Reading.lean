import SiteAssist.Proofs.Json.Record
import SiteAssist.Report.Diagnostic

/-!
# What is read from a report

A report holds the messages of a file at one place (`Messages`), and each of them is written in one of a
few ways (`CodeSnifferMessage.Written`, `AnalyserMessage.Written`).  Decoding a message is **reading what
is written** (`CodeSnifferMessage.decode_eq_ok_iff`, `AnalyserMessage.decode_eq_ok_iff`).

`reports_read` says for both checkers what follows for a report as a whole (`ReadsReport`): when it is
refused and why, when nothing is found in it, and that otherwise every message becomes a diagnostic, in
their order.  What it holds elsewhere does not count.  What the diagnostic of a `phpcs` message says is
`CodeSnifferMessage.Points` (`codeSniffer_points`).
-/

namespace SiteAssist.Report

open Json (Holds Proper holds_object_iff)
open Json.Decoder

variable {v : Json} {items : List Json}

/-! ## A message of `phpcs` -/

/-- The value is that message of `phpcs`: an object with its four members, or the four in an array.
Lines and columns have 32 bits. -/
inductive CodeSnifferMessage.Written : Json → CodeSnifferMessage → Prop
  | object {v : Json} {message kind : String} {line column : Nat}
      (hmessage : Holds v "message" (.string message)) (hkind : Holds v "type" (.string kind))
      (hline : Holds v "line" (Json.nat line)) (hl : line < Nat.pow 2 32)
      (hcolumn : Holds v "column" (Json.nat column)) (hc : column < Nat.pow 2 32) :
      Written v ⟨message, kind, line, column⟩
  | array {message kind : String} {line column : Nat} (hl : line < Nat.pow 2 32)
      (hc : column < Nat.pow 2 32) :
      Written (.array [.string message, .string kind, Json.nat line, Json.nat column])
        ⟨message, kind, line, column⟩

namespace CodeSnifferMessage

variable {m : CodeSnifferMessage}

/-- The fields of a message in their order. -/
def fields : List (Json.Decoder.Field CodeSnifferFields) :=
  [field "message" string fun m x => { m with message := some x },
   field "type" string fun m x => { m with kind := some x },
   field "line" word fun m x => { m with line := some x },
   field "column" word fun m x => { m with column := some x }]

theorem slot_message : Slot fields "message" string some (·.message) := by
  constructor <;> simp [fields, field, map_eq_ok_iff]

theorem slot_kind : Slot fields "type" string some (·.kind) := by
  constructor <;> simp [fields, field, map_eq_ok_iff]

theorem slot_line : Slot fields "line" word some (·.line) := by
  constructor <;> simp [fields, field, map_eq_ok_iff]

theorem slot_column : Slot fields "column" word some (·.column) := by
  constructor <;> simp [fields, field, map_eq_ok_iff]

theorem record_array_eq_ok_iff {found : CodeSnifferFields} :
    record "PhpcsMessage" fields {} (.array items) = .ok found ↔
      ∃ message kind line column,
        items = [.string message, .string kind, Json.nat line, Json.nat column] ∧
        line < Nat.pow 2 32 ∧ column < Nat.pow 2 32 ∧
        found = ⟨some message, some kind, some line, some column⟩ := by
  have hrecord : record "PhpcsMessage" fields {} (.array items) =
      fieldsOfItems "PhpcsMessage" 4 items.length fields items {} := rfl
  rw [hrecord]
  simp only [fields, fieldsOfItems_field_eq_ok_iff, fieldsOfItems_nil_eq_ok_iff, string_eq_ok_iff,
    word_eq_ok_iff]
  constructor
  · rintro ⟨_, _, message, rfl, rfl, _, _, kind, rfl, rfl, _, _, line, rfl, ⟨rfl, hl⟩, _, _, column, rfl,
      ⟨rfl, hc⟩, rfl, rfl⟩
    exact ⟨message, kind, line, column, rfl, hl, hc, rfl⟩
  · rintro ⟨message, kind, line, column, rfl, hl, hc, rfl⟩
    exact ⟨_, _, message, rfl, rfl, _, _, kind, rfl, rfl, _, _, line, rfl, ⟨rfl, hl⟩, _, _, column, rfl,
      ⟨rfl, hc⟩, rfl, rfl⟩

theorem decode_eq_ok_iff_found : decode v = .ok m ↔
    ∃ found, record "PhpcsMessage" fields {} v = .ok found ∧ found.message = some m.message ∧
      found.kind = some m.kind ∧ found.line = some m.line ∧ found.column = some m.column := by
  have hdecode : decode v = (record "PhpcsMessage" fields {} v >>= fun found =>
      required "message" found.message >>= fun message =>
      required "type" found.kind >>= fun kind =>
      required "line" found.line >>= fun line =>
      required "column" found.column >>= fun column => .ok ⟨message, kind, line, column⟩) := rfl
  obtain ⟨message, kind, line, column⟩ := m
  rw [hdecode]
  simp only [bind_eq_ok_iff, required_eq_ok_iff]
  grind

theorem written_of_decode (hv : Proper v) (h : decode v = .ok m) : Written v m := by
  obtain ⟨found, hfound, hmessage, hkind, hline, hcolumn⟩ := decode_eq_ok_iff_found.mp h
  cases hv with
  | object ascending each =>
    have hnodup := ascending.nodup
    obtain ⟨_, hm, hm'⟩ := slot_message.exists_mem hnodup hfound rfl hmessage
    obtain ⟨_, hk, hk'⟩ := slot_kind.exists_mem hnodup hfound rfl hkind
    obtain ⟨_, hl, hl'⟩ := slot_line.exists_mem hnodup hfound rfl hline
    obtain ⟨_, hc, hc'⟩ := slot_column.exists_mem hnodup hfound rfl hcolumn
    obtain rfl := string_eq_ok_iff.mp hm'
    obtain rfl := string_eq_ok_iff.mp hk'
    obtain ⟨rfl, hline⟩ := word_eq_ok_iff.mp hl'
    obtain ⟨rfl, hcolumn⟩ := word_eq_ok_iff.mp hc'
    exact .object (holds_object_iff.mpr hm) (holds_object_iff.mpr hk) (holds_object_iff.mpr hl) hline
      (holds_object_iff.mpr hc) hcolumn
  | array each =>
    obtain ⟨message, kind, line, column, rfl, hl, hc, rfl⟩ := record_array_eq_ok_iff.mp hfound
    obtain rfl : m = ⟨message, kind, line, column⟩ := by
      cases m
      cases hmessage
      cases hkind
      cases hline
      cases hcolumn
      rfl
    exact .array hl hc
  | _ => cases hfound

theorem decode_of_written (hv : Proper v) (h : Written v m) : decode v = .ok m := by
  rw [decode_eq_ok_iff_found]
  cases h with
  | @object _ message kind line column hmessage hkind hline hl hcolumn hc =>
    obtain ⟨members, rfl, hm⟩ := hmessage
    rw [holds_object_iff] at hkind hline hcolumn
    have hm' : string (.string message) = .ok message := rfl
    have hk' : string (.string kind) = .ok kind := rfl
    have hl' : word (Json.nat line) = .ok line := word_eq_ok_iff.mpr ⟨rfl, hl⟩
    have hc' : word (Json.nat column) = .ok column := word_eq_ok_iff.mpr ⟨rfl, hc⟩
    cases hv with
    | object ascending each =>
      have hnodup := ascending.nodup
      have hall : ∀ f ∈ fields, ∀ x, (f.name, x) ∈ members → ∀ s, ∃ s', f.decode s x = .ok s' := by
        simp only [fields, List.forall_mem_cons]
        exact ⟨exists_decode_field hnodup hm hm', exists_decode_field hnodup hkind hk',
          exists_decode_field hnodup hline hl', exists_decode_field hnodup hcolumn hc', nofun⟩
      obtain ⟨found, hfound⟩ := exists_fieldsOfMembers hall {}
      exact ⟨found, hfound, slot_message.eq_of_mem hfound hnodup hm hm',
        slot_kind.eq_of_mem hfound hnodup hkind hk', slot_line.eq_of_mem hfound hnodup hline hl',
        slot_column.eq_of_mem hfound hnodup hcolumn hc'⟩
  | array hl hc =>
    exact ⟨_, record_array_eq_ok_iff.mpr ⟨_, _, _, _, rfl, hl, hc, rfl⟩, rfl, rfl, rfl, rfl⟩

/-- A message of `phpcs` is **decoded as it is written**. -/
theorem decode_eq_ok_iff (hv : Proper v) : decode v = .ok m ↔ Written v m :=
  ⟨written_of_decode hv, decode_of_written hv⟩

/-- A diagnostic points to where a message says: an error if that is the type, a warning for any other,
with the message's own text, at one point.  Lines are counted from one in the message, and line zero is
taken for the first. -/
structure Points (m : CodeSnifferMessage) (d : Diagnostic) : Prop where
  error : d.severity = .error ↔ m.kind = "ERROR"
  warning : d.severity = .warning ↔ m.kind ≠ "ERROR"
  message : d.message = m.message
  line : d.span.startLine + 1 = m.line ∨ m.line = 0 ∧ d.span.startLine = 0
  column : d.span.startColumn = m.column
  empty : d.span.endLine = d.span.startLine ∧ d.span.endColumn = d.span.startColumn

theorem points_toDiagnostic (m : CodeSnifferMessage) : Points m m.toDiagnostic where
  error := by
    unfold toDiagnostic
    split <;> simp_all
  warning := by
    unfold toDiagnostic
    split <;> simp_all
  message := rfl
  line := by
    have hline : m.toDiagnostic.span.startLine = m.line - 1 := rfl
    omega
  column := rfl
  empty := ⟨rfl, rfl⟩

end CodeSnifferMessage

/-! ## A message of `phpstan` -/

namespace AnalyserMessage

/-- The value gives that line, which has 32 bits, or is `null` and gives none. -/
inductive IsLine : Json → Option Nat → Prop
  | null : IsLine .null none
  | number {n : Nat} (hn : n < Nat.pow 2 32) : IsLine (Json.nat n) (some n)

/-- The value is that message of `phpstan`: an object whose line may be left out, or an array of both
fields. -/
inductive Written : Json → AnalyserMessage → Prop
  | unlined {v : Json} {message : String} (hmessage : Holds v "message" (.string message))
      (hline : ∀ x, ¬Holds v "line" x) : Written v ⟨message, none⟩
  | lined {v x : Json} {message : String} {line : Option Nat}
      (hmessage : Holds v "message" (.string message)) (hx : Holds v "line" x) (hline : IsLine x line) :
      Written v ⟨message, line⟩
  | array {x : Json} {message : String} {line : Option Nat} (hline : IsLine x line) :
      Written (.array [.string message, x]) ⟨message, line⟩

variable {m : AnalyserMessage}

theorem optional_word_eq_ok_iff {line : Option Nat} : optional word v = .ok line ↔ IsLine v line := by
  rw [optional_eq_ok_iff]
  constructor
  · rintro (⟨rfl, rfl⟩ | ⟨_, n, hn, rfl⟩)
    · exact .null
    · obtain ⟨rfl, hlimit⟩ := word_eq_ok_iff.mp hn
      exact .number hlimit
  · intro h
    cases h with
    | null => exact Or.inl ⟨rfl, rfl⟩
    | number hn => exact Or.inr ⟨nofun, _, word_eq_ok_iff.mpr ⟨rfl, hn⟩, rfl⟩

/-- The fields of a message in their order. -/
def fields : List (Json.Decoder.Field AnalyserFields) :=
  [field "message" string fun m x => { m with message := some x },
   field "line" (optional word) fun m x => { m with line := x }]

theorem slot_message : Slot fields "message" string some (·.message) := by
  constructor <;> simp [fields, field, map_eq_ok_iff]

theorem slot_line : Slot fields "line" (optional word) id (·.line) := by
  constructor <;> simp [fields, field, map_eq_ok_iff]

theorem record_array_eq_ok_iff {found : AnalyserFields} :
    record "PhpstanMessage" fields {} (.array items) = .ok found ↔
      ∃ message x line, items = [.string message, x] ∧ IsLine x line ∧ found = ⟨some message, line⟩ := by
  have hrecord : record "PhpstanMessage" fields {} (.array items) =
      fieldsOfItems "PhpstanMessage" 2 items.length fields items {} := rfl
  rw [hrecord]
  simp only [fields, fieldsOfItems_field_eq_ok_iff, fieldsOfItems_nil_eq_ok_iff, string_eq_ok_iff,
    optional_word_eq_ok_iff]
  constructor
  · rintro ⟨_, _, message, rfl, rfl, x, _, line, rfl, hline, rfl, rfl⟩
    exact ⟨message, x, line, rfl, hline, rfl⟩
  · rintro ⟨message, x, line, rfl, hline, rfl⟩
    exact ⟨_, _, message, rfl, rfl, x, _, line, rfl, hline, rfl, rfl⟩

theorem decode_eq_ok_iff_found : decode v = .ok m ↔
    ∃ found, record "PhpstanMessage" fields {} v = .ok found ∧ found.message = some m.message ∧
      found.line = m.line := by
  have hdecode : decode v = (record "PhpstanMessage" fields {} v >>= fun found =>
      required "message" found.message >>= fun message => .ok ⟨message, found.line⟩) := rfl
  obtain ⟨message, line⟩ := m
  rw [hdecode]
  simp only [bind_eq_ok_iff, required_eq_ok_iff]
  grind

theorem written_of_decode (hv : Proper v) (h : decode v = .ok m) : Written v m := by
  obtain ⟨message, line⟩ := m
  obtain ⟨found, hfound, hmessage, hline⟩ := decode_eq_ok_iff_found.mp h
  cases hv with
  | @object members ascending each =>
    have hnodup := ascending.nodup
    obtain ⟨_, hm, hm'⟩ := slot_message.exists_mem hnodup hfound rfl hmessage
    obtain rfl := string_eq_ok_iff.mp hm'
    by_cases hkey : "line" ∈ members.map Prod.fst
    · obtain ⟨⟨_, x⟩, hx, rfl⟩ := List.mem_map.mp hkey
      obtain ⟨_, hx', hslot⟩ := slot_line.of_mem hnodup hx hfound
      obtain rfl := hline.symm.trans hslot
      exact .lined (holds_object_iff.mpr hm) (holds_object_iff.mpr hx) (optional_word_eq_ok_iff.mp hx')
    · obtain rfl := hline.symm.trans (slot_line.of_notMem hkey hfound)
      exact .unlined (holds_object_iff.mpr hm) fun x hx =>
        hkey (List.mem_map.mpr ⟨_, holds_object_iff.mp hx, rfl⟩)
  | array each =>
    obtain ⟨_, x, _, rfl, hx, rfl⟩ := record_array_eq_ok_iff.mp hfound
    cases hmessage
    cases hline
    exact .array hx
  | _ => cases hfound

theorem decode_of_written (hv : Proper v) (h : Written v m) : decode v = .ok m := by
  obtain ⟨message, line⟩ := m
  rw [decode_eq_ok_iff_found]
  have hm' : string (.string message) = .ok message := rfl
  cases h with
  | unlined hmessage hline =>
    obtain ⟨members, rfl, hm⟩ := hmessage
    simp only [holds_object_iff] at hline
    cases hv with
    | object ascending each =>
      have hnodup := ascending.nodup
      have hall : ∀ f ∈ fields, ∀ x, (f.name, x) ∈ members → ∀ s, ∃ s', f.decode s x = .ok s' := by
        simp only [fields, List.forall_mem_cons]
        exact ⟨exists_decode_field hnodup hm hm', fun x hx => absurd hx (hline x), nofun⟩
      obtain ⟨found, hfound⟩ := exists_fieldsOfMembers hall {}
      have hkey : "line" ∉ members.map Prod.fst := by
        intro hkey
        obtain ⟨⟨_, x⟩, hx, rfl⟩ := List.mem_map.mp hkey
        exact hline x hx
      exact ⟨found, hfound, slot_message.eq_of_mem hfound hnodup hm hm', slot_line.of_notMem hkey hfound⟩
  | @lined _ x _ _ hmessage hx hline =>
    obtain ⟨members, rfl, hm⟩ := hmessage
    rw [holds_object_iff] at hx
    have hx' : optional word x = .ok line := optional_word_eq_ok_iff.mpr hline
    cases hv with
    | object ascending each =>
      have hnodup := ascending.nodup
      have hall : ∀ f ∈ fields, ∀ x, (f.name, x) ∈ members → ∀ s, ∃ s', f.decode s x = .ok s' := by
        simp only [fields, List.forall_mem_cons]
        exact ⟨exists_decode_field hnodup hm hm', exists_decode_field hnodup hx hx', nofun⟩
      obtain ⟨found, hfound⟩ := exists_fieldsOfMembers hall {}
      exact ⟨found, hfound, slot_message.eq_of_mem hfound hnodup hm hm',
        slot_line.eq_of_mem hfound hnodup hx hx'⟩
  | array hline =>
    exact ⟨_, record_array_eq_ok_iff.mpr ⟨_, _, _, rfl, hline, rfl⟩, rfl, rfl⟩

/-- A message of `phpstan` is **decoded as it is written**. -/
theorem decode_eq_ok_iff (hv : Proper v) : decode v = .ok m ↔ Written v m :=
  ⟨written_of_decode hv, decode_of_written hv⟩

end AnalyserMessage

/-! ## Where the messages of a file stand -/

variable {report files messages : Json} {file : String}

/-- Under `files`, under the path of the file, the report holds that value as its messages. -/
def Messages (report : Json) (file : String) (messages : Json) : Prop :=
  ∃ files entry, Holds report "files" files ∧ Holds files file entry ∧ Holds entry "messages" messages

theorem fileMessages?_of_missing (hr : Proper report) (hmissing : ∀ files, ¬Holds report "files" files) :
    fileMessages? report file = .error (.missingSection "files") := by
  rw [fileMessages?, hr.get?_eq_none_iff.mpr hmissing]

/-- With a member `files`, the report has the messages that it holds. -/
theorem fileMessages?_eq_ok_iff (hr : Proper report) (hfiles : Holds report "files" files)
    {found : Option Json} :
    fileMessages? report file = .ok found ↔ ∀ messages, found = some messages ↔
      Messages report file messages := by
  have hf := hr.of_holds hfiles
  have hlookup : ∀ messages, (files.get? file).bind (·.get? "messages") = some messages ↔
      Messages report file messages := by
    intro messages
    rw [Option.bind_eq_some_iff]
    constructor
    · rintro ⟨entry, hentry, hmessages⟩
      have hentry := hf.get?_eq_some_iff.mp hentry
      exact ⟨files, entry, hfiles, hentry, ((hf.of_holds hentry).get?_eq_some_iff).mp hmessages⟩
    · rintro ⟨files', entry, hfiles', hentry, hmessages⟩
      obtain rfl := hr.holds_unique hfiles hfiles'
      exact ⟨entry, hf.get?_eq_some_iff.mpr hentry,
        ((hf.of_holds hentry).get?_eq_some_iff).mpr hmessages⟩
  rw [fileMessages?, hr.get?_eq_some_iff.mpr hfiles]
  simp only [← hlookup, Except.ok.injEq]
  constructor
  · rintro rfl messages
    rfl
  · intro h
    ext messages
    exact (h messages).symm

theorem Messages.unique (hr : Proper report) {messages' : Json} (h : Messages report file messages)
    (h' : Messages report file messages') : messages = messages' := by
  obtain ⟨files, entry, hfiles, hentry, hmessages⟩ := h
  obtain ⟨files', entry', hfiles', hentry', hmessages'⟩ := h'
  obtain rfl := hr.holds_unique hfiles hfiles'
  obtain rfl := (hr.of_holds hfiles).holds_unique hentry hentry'
  exact ((hr.of_holds hfiles).of_holds hentry).holds_unique hmessages hmessages'

theorem Messages.proper (hr : Proper report) (h : Messages report file messages) : Proper messages := by
  obtain ⟨files, entry, hfiles, hentry, hmessages⟩ := h
  exact ((hr.of_holds hfiles).of_holds hentry).of_holds hmessages

theorem Messages.not_missing (h : Messages report file messages) :
    ¬∀ files, ¬Holds report "files" files := by
  obtain ⟨files, _, hfiles, _⟩ := h
  exact fun hmissing => hmissing files hfiles

/-! ## The report as a whole -/

section

variable {α : Type} {decode : Json.Decoder α} {Written : Json → α → Prop} {text : String} {ms : List α}

/-- A list of messages is decoded if each is written as one should be, and in their order. -/
theorem list_decode_eq_ok_iff (hdecode : ∀ v m, Proper v → (decode v = .ok m ↔ Written v m))
    (hv : Proper messages) :
    list decode messages = .ok ms ↔ ∃ items, messages = .array items ∧ List.Forall₂ Written items ms := by
  rw [list_eq_ok_iff]
  refine exists_congr fun items => and_congr_right ?_
  rintro rfl
  cases hv with
  | array each =>
    have hproper : ∀ R : Json → α → Prop, List.Forall₂ R items ms ↔
        List.Forall₂ (fun v m => Proper v ∧ R v m) items ms := by
      intro R
      rw [List.forall₂_and_left, and_iff_right each]
    rw [hproper, hproper Written]
    simp only [and_congr_right (hdecode _ _)]

theorem exists_forall₂_iff {items : List Json} :
    (∃ ms, List.Forall₂ Written items ms) ↔ ∀ v ∈ items, ∃ m, Written v m := by
  induction items with
  | nil => exact iff_of_true ⟨[], .nil⟩ nofun
  | cons v items ih =>
    rw [List.forall_mem_cons, ← ih]
    constructor
    · rintro ⟨_, h⟩
      cases h with
      | cons hm hms => exact ⟨⟨_, hm⟩, _, hms⟩
    · rintro ⟨⟨m, hm⟩, ms, hms⟩
      exact ⟨m :: ms, .cons hm hms⟩

/-- What comes of the messages of a file in a report that could be parsed. -/
inductive Outcome (Written : Json → α → Prop) (report : Json) (file : String) :
    Except ReportError (List α) → Prop
  | missing (h : ∀ files, ¬Holds report "files" files) :
      Outcome Written report file (.error (.missingSection "files"))
  | empty {files : Json} (hfiles : Holds report "files" files)
      (h : ∀ messages, ¬Messages report file messages) : Outcome Written report file (.ok [])
  | misshapen {messages : Json} (hmessages : Messages report file messages)
      (h : ¬∃ items, messages = .array items ∧ ∀ v ∈ items, ∃ m, Written v m)
      (shape : Json.ShapeError) : Outcome Written report file (.error (.misshapen shape))
  | complete {items : List Json} {ms : List α} (hmessages : Messages report file (.array items))
      (h : List.Forall₂ Written items ms) : Outcome Written report file (.ok ms)

theorem outcome_readMessages (hdecode : ∀ v m, Proper v → (decode v = .ok m ↔ Written v m))
    (hparse : Json.parse text = .ok report) (file : String) :
    Outcome Written report file (readMessages decode text file) := by
  have hr := Json.proper_parse hparse
  by_cases hfiles : ∃ files, Holds report "files" files
  · obtain ⟨files, hfiles⟩ := hfiles
    by_cases hm : ∃ messages, Messages report file messages
    · obtain ⟨messages, hmessages⟩ := hm
      have hfound : fileMessages? report file = .ok (some messages) :=
        (fileMessages?_eq_ok_iff hr hfiles).mpr fun messages' =>
          ⟨fun h => Option.some.inj h ▸ hmessages, fun h => congrArg some (hmessages.unique hr h)⟩
      have hlist (ms : List α) : list decode messages = .ok ms ↔
          ∃ items, messages = .array items ∧ List.Forall₂ Written items ms :=
        list_decode_eq_ok_iff hdecode (hmessages.proper hr)
      simp only [readMessages, hparse, hfound]
      cases hl : list decode messages with
      | ok ms =>
        obtain ⟨items, rfl, hitems⟩ := (hlist ms).mp hl
        exact .complete hmessages hitems
      | error shape =>
        refine .misshapen hmessages ?_ shape
        rintro ⟨items, rfl, hitems⟩
        obtain ⟨ms, hms⟩ := exists_forall₂_iff.mpr hitems
        rw [(hlist ms).mpr ⟨items, rfl, hms⟩] at hl
        cases hl
    · have hnone : ∀ messages, ¬Messages report file messages := not_exists.mp hm
      have hfound : fileMessages? report file = .ok none :=
        (fileMessages?_eq_ok_iff hr hfiles).mpr fun messages => iff_of_false nofun (hnone messages)
      simp only [readMessages, hparse, hfound]
      exact .empty hfiles hnone
  · have hmissing := not_exists.mp hfiles
    simp only [readMessages, hparse, fileMessages?_of_missing hr hmissing]
    exact .missing hmissing

/-- Messages that are read stand in the report. -/
theorem exists_of_readMessages (hdecode : ∀ v m, Proper v → (decode v = .ok m ↔ Written v m))
    (h : readMessages decode text file = .ok ms) (hne : ms ≠ []) :
    ∃ report items, Json.parse text = .ok report ∧ Messages report file (.array items) ∧
      List.Forall₂ Written items ms := by
  cases hparse : Json.parse text with
  | error e =>
    simp only [readMessages, hparse] at h
    cases h
  | ok report =>
    have hout := outcome_readMessages hdecode hparse file
    rw [h] at hout
    cases hout with
    | empty _ _ => exact absurd rfl hne
    | @complete items _ hmessages hitems => exact ⟨report, items, rfl, hmessages, hitems⟩

end

/-- How a checker's report is read, for messages that are written in a certain way and make certain
diagnostics. -/
structure ReadsReport {α : Type} (Written : Json → α → Prop) (diagnose : α → Diagnostic)
    (read : String → String → Except ReportError (List Diagnostic)) : Prop where
  /-- A text that is no JSON is refused, with the fault it has. -/
  unreadable : ∀ text file fault,
    read text file = .error (.unreadable fault) ↔ Json.parse text = .error fault
  /-- A value that is no object with a member `files` is refused. -/
  missing : ∀ text report file name, Json.parse text = .ok report →
    (read text file = .error (.missingSection name) ↔
      name = "files" ∧ ∀ files, ¬Holds report "files" files)
  /-- There is nothing in a report that has no messages for the file. -/
  empty : ∀ text report files file, Json.parse text = .ok report → Holds report "files" files →
    (∀ messages, ¬Messages report file messages) → read text file = .ok []
  /-- Messages are refused if they are no array, or one of them is not written as it should be. -/
  misshapen : ∀ text report file, Json.parse text = .ok report →
    ((∃ shape, read text file = .error (.misshapen shape)) ↔
      ∃ messages, Messages report file messages ∧
        ¬∃ items, messages = .array items ∧ ∀ v ∈ items, ∃ m, Written v m)
  /-- Otherwise each message makes a diagnostic, in their order. -/
  complete : ∀ text report file items, Json.parse text = .ok report →
    Messages report file (.array items) → (∀ v ∈ items, ∃ m, Written v m) →
    ∃ ms, List.Forall₂ Written items ms ∧ read text file = .ok (ms.map diagnose)
  /-- Reports that have the same messages for the file are read alike. -/
  independent : ∀ text text' report report' files files' file,
    Json.parse text = .ok report → Json.parse text' = .ok report' →
    Holds report "files" files → Holds report' "files" files' →
    (∀ messages, Messages report file messages ↔ Messages report' file messages) →
    read text file = read text' file

/-- Any checker is read so whose messages are decoded as they are written. -/
theorem readsReport_readMessages {α : Type} {decode : Json.Decoder α} {Written : Json → α → Prop}
    (hdecode : ∀ v m, Proper v → (decode v = .ok m ↔ Written v m)) (diagnose : α → Diagnostic) :
    ReadsReport Written diagnose fun text file =>
      (readMessages decode text file).map (·.map diagnose) where
  unreadable text file fault := by
    cases hparse : Json.parse text with
    | error e => simp [readMessages, hparse, Except.map]
    | ok report =>
      have h := outcome_readMessages hdecode hparse file
      generalize readMessages decode text file = r at h ⊢
      cases h <;> exact iff_of_false nofun nofun
  missing text report file name hparse := by
    have h := outcome_readMessages hdecode hparse file
    generalize readMessages decode text file = r at h ⊢
    cases h with
    | missing hmissing => simp [Except.map, hmissing, eq_comm]
    | empty hfiles _ => exact iff_of_false nofun fun h => h.2 _ hfiles
    | misshapen hmessages _ _ => exact iff_of_false nofun fun h => hmessages.not_missing h.2
    | complete hmessages _ => exact iff_of_false nofun fun h => hmessages.not_missing h.2
  empty text report files file hparse hfiles hnone := by
    have h := outcome_readMessages hdecode hparse file
    generalize readMessages decode text file = r at h ⊢
    cases h with
    | missing hmissing => exact absurd hfiles (hmissing files)
    | empty _ _ => rfl
    | misshapen hmessages _ _ => exact absurd hmessages (hnone _)
    | complete hmessages _ => exact absurd hmessages (hnone _)
  misshapen text report file hparse := by
    have hr := Json.proper_parse hparse
    have h := outcome_readMessages hdecode hparse file
    generalize readMessages decode text file = r at h ⊢
    cases h with
    | missing hmissing => exact iff_of_false nofun fun ⟨_, h, _⟩ => h.not_missing hmissing
    | empty _ hnone => exact iff_of_false nofun fun ⟨messages, h, _⟩ => hnone messages h
    | misshapen hmessages hbad shape => exact iff_of_true ⟨shape, rfl⟩ ⟨_, hmessages, hbad⟩
    | complete hmessages hitems =>
      refine iff_of_false nofun ?_
      rintro ⟨messages, h, hbad⟩
      obtain rfl := hmessages.unique hr h
      exact hbad ⟨_, rfl, exists_forall₂_iff.mp ⟨_, hitems⟩⟩
  complete text report file items hparse hmessages hitems := by
    have hr := Json.proper_parse hparse
    have h := outcome_readMessages hdecode hparse file
    generalize readMessages decode text file = r at h ⊢
    cases h with
    | missing hmissing => exact absurd hmissing hmessages.not_missing
    | empty _ hnone => exact absurd hmessages (hnone _)
    | misshapen h hbad _ => exact absurd ⟨items, h.unique hr hmessages, hitems⟩ hbad
    | complete h hms =>
      cases h.unique hr hmessages
      exact ⟨_, hms, rfl⟩
  independent text text' report report' files files' file hparse hparse' hfiles hfiles' hagree := by
    have hr := Json.proper_parse hparse
    obtain ⟨found, hfound⟩ : ∃ found, fileMessages? report file = .ok found :=
      ⟨_, by rw [fileMessages?, hr.get?_eq_some_iff.mpr hfiles]⟩
    have hfound' : fileMessages? report' file = .ok found :=
      (fileMessages?_eq_ok_iff (Json.proper_parse hparse') hfiles').mpr fun messages =>
        ((fileMessages?_eq_ok_iff hr hfiles).mp hfound messages).trans (hagree messages)
    simp only [readMessages, hparse, hparse', hfound, hfound']

/-- **The reports of both checkers are read as they are written.**  A report is refused if it is no JSON,
if it has no member `files`, or if what it has for the file is no array of messages.  Else each of these
messages makes one diagnostic, in their order. -/
theorem reports_read :
    ReadsReport CodeSnifferMessage.Written CodeSnifferMessage.toDiagnostic codeSniffer ∧
      ∀ text : String, ReadsReport AnalyserMessage.Written
        (AnalyserMessage.toDiagnostic (Text.lines text.toList)) fun json file => analyser json file text :=
  ⟨readsReport_readMessages (fun _ _ => CodeSnifferMessage.decode_eq_ok_iff) _,
    fun _ => readsReport_readMessages (fun _ _ => AnalyserMessage.decode_eq_ok_iff) _⟩

/-- **Each message of `phpcs` is pointed to**, in their order. -/
theorem codeSniffer_points {text file : String} {report : Json} {items : List Json}
    (hparse : Json.parse text = .ok report) (hmessages : Messages report file (.array items))
    (hitems : ∀ v ∈ items, ∃ m, CodeSnifferMessage.Written v m) :
    ∃ ds, codeSniffer text file = .ok ds ∧
      List.Forall₂ (fun v d => ∃ m, CodeSnifferMessage.Written v m ∧ m.Points d) items ds := by
  have hread := readsReport_readMessages (fun _ _ => CodeSnifferMessage.decode_eq_ok_iff) (·.toDiagnostic)
  obtain ⟨ms, hms, hds⟩ := hread.complete text report file items hparse hmessages hitems
  refine ⟨_, hds, ?_⟩
  rw [List.forall₂_map_right_iff]
  exact hms.imp fun v m hm => ⟨m, hm, m.points_toDiagnostic⟩

/-- A report that is broken for one file and has two messages for another. -/
def halfBroken : String :=
  "\x7b\"files\": \x7b\"/b.php\": \x7b\"messages\": 1\x7d, \"/a.php\": \x7b\"messages\":
    [[\"M\", \"ERROR\", 2, 3], \x7b\"column\": 0, \"type\": \"WARNING\", \"message\": \"N\",
    \"line\": 0\x7d]\x7d\x7d\x7d"

/-- What a report has for another file does not matter, however broken it is. -/
theorem reports_read_halfBroken :
    ∃ report items, Json.parse halfBroken = .ok report ∧ Messages report "/a.php" (.array items) ∧
      (∃ ms, List.Forall₂ CodeSnifferMessage.Written items ms ∧
        codeSniffer halfBroken "/a.php" = .ok (ms.map CodeSnifferMessage.toDiagnostic) ∧
        ms.map CodeSnifferMessage.toDiagnostic =
          [⟨.error, "M", ⟨1, 3, 1, 3⟩, "Drupal: phpcs"⟩, ⟨.warning, "N", ⟨0, 0, 0, 0⟩, "Drupal: phpcs"⟩]) ∧
      ∃ messages, Messages report "/b.php" messages ∧
        ¬∃ items, messages = .array items ∧ ∀ v ∈ items, ∃ m, CodeSnifferMessage.Written v m := by
  have hdiagnosed : (codeSniffer halfBroken "/a.php").toOption =
      some [⟨.error, "M", ⟨1, 3, 1, 3⟩, "Drupal: phpcs"⟩, ⟨.warning, "N", ⟨0, 0, 0, 0⟩, "Drupal: phpcs"⟩] := by
    decide +kernel
  have hbroken : (match codeSniffer halfBroken "/b.php" with
      | .error (.misshapen _) => true
      | _ => false) = true := by decide +kernel
  obtain ⟨ms, hread, hne⟩ : ∃ ms, readMessages CodeSnifferMessage.decode halfBroken "/a.php" = .ok ms ∧
      ms ≠ [] := by
    rw [codeSniffer] at hdiagnosed
    cases hread : readMessages CodeSnifferMessage.decode halfBroken "/a.php" with
    | error e =>
      rw [hread] at hdiagnosed
      cases hdiagnosed
    | ok ms =>
      refine ⟨ms, rfl, ?_⟩
      rintro rfl
      rw [hread] at hdiagnosed
      cases hdiagnosed
  obtain ⟨report, items, hparse, hmessages, hms⟩ :=
    exists_of_readMessages (fun _ _ => CodeSnifferMessage.decode_eq_ok_iff) hread hne
  refine ⟨report, items, hparse, hmessages, ?_, ?_⟩
  · obtain ⟨ms, hms, hds⟩ := reports_read.1.complete halfBroken report "/a.php" items hparse hmessages
      (exists_forall₂_iff.mp ⟨ms, hms⟩)
    rw [hds] at hdiagnosed
    exact ⟨ms, hms, hds, Option.some.inj hdiagnosed⟩
  · refine (reports_read.1.misshapen halfBroken report "/b.php" hparse).mp ?_
    split at hbroken
    · next shape hshape => exact ⟨shape, hshape⟩
    · cases hbroken

end SiteAssist.Report
