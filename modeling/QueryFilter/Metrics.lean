/-!
# Metrics

Counters of what was done with filters. They are 64-bit words and wrap around.
-/

namespace QueryFilter

/-- The counters. -/
structure Metrics where
  documentsDecoded : UInt64 := 0
  compilations : UInt64 := 0
  rejections : UInt64 := 0
  joinsCreated : UInt64 := 0
  distinctQueries : UInt64 := 0
  deriving DecidableEq, Repr

namespace Metrics

/-- Count a decoded document. -/
def addDecoded (m : Metrics) : Metrics := { m with documentsDecoded := m.documentsDecoded + 1 }

/-- Count a successful compilation. -/
def addCompilation (m : Metrics) : Metrics := { m with compilations := m.compilations + 1 }

/-- Count a failed compilation. -/
def addRejection (m : Metrics) : Metrics := { m with rejections := m.rejections + 1 }

/-- Count joins. -/
def addJoins (m : Metrics) (n : UInt64) : Metrics := { m with joinsCreated := m.joinsCreated + n }

/-- Count a query that needs duplicate elimination. -/
def addDistinct (m : Metrics) : Metrics := { m with distinctQueries := m.distinctQueries + 1 }

/-- The counters as the text of a JSON object, by name. -/
def toText (m : Metrics) : String :=
  "\x7b\"compilations\":" ++ toString m.compilations ++
  ",\"distinct_queries\":" ++ toString m.distinctQueries ++
  ",\"documents_decoded\":" ++ toString m.documentsDecoded ++
  ",\"joins_created\":" ++ toString m.joinsCreated ++
  ",\"rejections\":" ++ toString m.rejections ++ "\x7d"

end Metrics

end QueryFilter
