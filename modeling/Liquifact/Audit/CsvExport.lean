import Liquifact.Audit.AuditLog
import Liquifact.Lib.Csv
import Liquifact.Lib.Double

/-!
# Audit events as CSV (`src/services/auditLogStore.js`, `src/services/auditLog.js`)

Two encoders. `createCsvTransform` (auditLogStore.js 222-261) pushes the header with the first
row, or at the end, and a line for each row (`rowToCsvLine`, 158-170), every field through
`escapeCsvField` (114-136): a quote in front of a value with a formula lead, then double
quotes where the grammar needs them. `exportAuditLogs` (auditLog.js 282-310) quotes a text with
a comma or a double quote in three of its nine columns and shows the others as they are.

The rows of `exportAuditLogs` are those that its query returned.
-/

namespace Liquifact.Audit
open Liquifact.Lib

/- `val == null ? '' : String(val)`, which is also what `join` shows. -/
def Column.string : Column → String
  | .null => ""
  | .number x => numberText x
  | .text s => s

/-! ### The transform -/

/- `/^[=+\-@|\t\r]/.test(trimmedFirst)`. -/
def isFormulaLead (c : Char) : Bool := ['=', '+', '-', '@', '|', '\t', '\r'].contains c

/- The injection rule: the first character that is no white space is a lead. -/
def marked (str : String) : Bool :=
  ((str.toList.dropWhile isJsSpace).head?.map isFormulaLead).getD false

def injectionSafe (str : String) : String := if marked str then "'" ++ str else str

def escapeCsvField (val : Column) : String :=
  let safe := injectionSafe val.string
  if safe.toList.any Csv.isSpecial then Csv.quoted safe else safe

def csvHeaders : List String :=
  ["id", "timestamp", "actor", "action", "resourceType", "resourceId", "statusCode", "ipAddress",
    "userAgent"]

def rowToCsvLine (row : AuditRow) : String :=
  Csv.line [escapeCsvField row.id, escapeCsvField row.createdAt, escapeCsvField row.actorId,
    escapeCsvField row.action, escapeCsvField row.targetType, escapeCsvField row.targetId,
    escapeCsvField row.statusCode, escapeCsvField row.ipAddress, escapeCsvField row.userAgent]

structure CsvTransform where
  headerWritten : Bool
  pushed : List String

namespace CsvTransform

def initial : CsvTransform := ⟨false, []⟩

def writeHeader (t : CsvTransform) : CsvTransform :=
  if t.headerWritten then t else ⟨true, t.pushed ++ [Csv.line csvHeaders ++ "\n"]⟩

def transform (t : CsvTransform) (row : AuditRow) : CsvTransform :=
  let t := t.writeHeader
  { t with pushed := t.pushed ++ [rowToCsvLine row ++ "\n"] }

end CsvTransform

def needsQuotes : Column → Bool
  | .text s => s.toList.any fun c => c = ',' || c = '"'
  | _ => false

/- A column of a row, and whether `exportAuditLogs` escapes it. -/
structure Cell where
  value : Column
  escaped : Bool

def AuditRow.cells (row : AuditRow) : List Cell :=
  [⟨row.id, false⟩, ⟨row.createdAt, false⟩, ⟨row.actorId, true⟩, ⟨row.action, false⟩,
    ⟨row.targetType, false⟩, ⟨row.targetId, false⟩, ⟨row.statusCode, false⟩, ⟨row.ipAddress, true⟩,
    ⟨row.userAgent, true⟩]

/- What the transform shows of a column. -/
def Cell.field (c : Cell) : String := injectionSafe c.value.string

def AuditRow.fields (row : AuditRow) : List String := row.cells.map Cell.field

/- `exportAuditLogs` puts the column in quotes. -/
def Cell.quotedByExport (c : Cell) : Bool := c.escaped && needsQuotes c.value

def Cell.exported (c : Cell) : String :=
  if c.quotedByExport then Csv.quoted c.value.string else c.value.string

theorem rowToCsvLine_eq (row : AuditRow) :
    rowToCsvLine row = Csv.line (row.cells.map fun c => escapeCsvField c.value) := rfl

def formulaSigns : List Char := ['=', '+', '-', '@', '|']

/- The field starts with no sign, tab or carriage return, and no sign is its first character
that is not white space. -/
def Harmless (field : String) : Prop :=
  (∀ c, field.toList.head? = some c → c ∉ '\t' :: '\r' :: formulaSigns) ∧
    ∀ c, (field.toList.dropWhile isJsSpace).head? = some c → c ∉ formulaSigns

def sampleRow (actor : String) : AuditRow where
  id := .number (.fin 7)
  createdAt := .text "2024-04-26T00:00:00.000Z"
  actorId := .text actor
  action := .text "UPDATE"
  targetType := .text "invoice"
  targetId := .text "inv-1"
  statusCode := .number (.fin 200)
  ipAddress := .null
  userAgent := .text "Mozilla/5.0"
  metadata := storedMetadata none
  time := 1714089600000

end Liquifact.Audit
