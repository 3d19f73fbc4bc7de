import QueryFilter.Proofs.Appending
import QueryFilter.Proofs.Counting
import QueryFilter.Proofs.Distinct
import QueryFilter.Proofs.Fields
import QueryFilter.Proofs.Formula
import QueryFilter.Proofs.Grammar
import QueryFilter.Proofs.Joins
import QueryFilter.Proofs.KeyOrder
import QueryFilter.Proofs.Links
import QueryFilter.Proofs.Literals
import QueryFilter.Proofs.Markers
import QueryFilter.Proofs.Placeholders
import QueryFilter.Proofs.Rejection
import QueryFilter.Proofs.Resolution
import QueryFilter.Proofs.Runs
import QueryFilter.Proofs.Typing
import QueryFilter.Query.Report
import QueryFilter.Query.Sql
import QueryFilter.Schema.Loader
import QueryFilter.Proofs.Patterns
import QueryFilter.Proofs.Accounting
import QueryFilter.Proofs.Nulls
import QueryFilter.Proofs.JsonText
import QueryFilter.Proofs.Definitions
import QueryFilter.Proofs.FileTree
import QueryFilter.Proofs.Sorting
import QueryFilter.Proofs.Saving
import QueryFilter.Proofs.Nesting
import QueryFilter.Proofs.Digits
import QueryFilter.Proofs.Operands
import QueryFilter.Proofs.Readers
import QueryFilter.Proofs.TemporalText
import QueryFilter.Proofs.Integers
import QueryFilter.Proofs.Builder
import QueryFilter.Proofs.Declarations
import QueryFilter.Proofs.Building
import QueryFilter.Proofs.LogLines
import QueryFilter.Proofs.Segments
import QueryFilter.Proofs.Attributes
import QueryFilter.Proofs.Limits
import QueryFilter.Proofs.Extension
import QueryFilter.Text.Bytes
import QueryFilter.Proofs.Bytes
import QueryFilter.Proofs.Loading
import QueryFilter.Proofs.Hijrah
import QueryFilter.Proofs.Constants
import QueryFilter.Proofs.Keys
