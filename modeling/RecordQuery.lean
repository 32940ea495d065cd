import RecordQuery.Main
import RecordQuery.Store.Scripted
import RecordQuery.Proofs.Outcome
import RecordQuery.Proofs.Schemas
import RecordQuery.Proofs.Predicates
import RecordQuery.Proofs.Tables
import RecordQuery.Proofs.Shop
import RecordQuery.Proofs.Paths
import RecordQuery.Proofs.Where.Meaning
import RecordQuery.Proofs.Reading.View
import RecordQuery.Proofs.Reading.Rows
import RecordQuery.Proofs.Reading.Queries
import RecordQuery.Proofs.Gateway
import RecordQuery.Proofs.Requests
import RecordQuery.Proofs.Concealment
import RecordQuery.Proofs.Loading.Closure
import RecordQuery.Proofs.Reading.Order
import RecordQuery.Proofs.Records
import RecordQuery.Proofs.Loading.Joins
import RecordQuery.Proofs.Loading.Levels
import RecordQuery.Proofs.Loading.Loaded
import RecordQuery.Proofs.Filters
import RecordQuery.Proofs.Complement
import RecordQuery.Proofs.Writing.Edits
import RecordQuery.Proofs.Writing.Statements
import RecordQuery.Proofs.Writing.Records
import RecordQuery.Proofs.Writing.Operations
import RecordQuery.Proofs.Writing.Targets
import RecordQuery.Proofs.Writing.Frame
import RecordQuery.Proofs.Writing.Confinement
import RecordQuery.Proofs.Writing.Creation
import RecordQuery.Proofs.Writing.Absence
import RecordQuery.Proofs.Writing.Turns
import RecordQuery.Proofs.Writing.Deleted
import RecordQuery.Proofs.Stores.Alike
import RecordQuery.Proofs.Stores.Calls
import RecordQuery.Proofs.Reading.Compiled
import RecordQuery.Proofs.Form.Encoding
import RecordQuery.Proofs.Form.Numbering
import RecordQuery.Proofs.Form.Spelling
import RecordQuery.Proofs.Form.Typing
import RecordQuery.Proofs.Form.Channels
import RecordQuery.Proofs.Decimal.Shortest
import RecordQuery.Proofs.Decimal.Layout
import RecordQuery.Proofs.Leaves
import RecordQuery.Proofs.Reading.Sorting
import RecordQuery.Proofs.Loading.Keys
import RecordQuery.Proofs.Loading.Fewer
import RecordQuery.Proofs.Loading.Each
import RecordQuery.Proofs.Reading.Stretches
import RecordQuery.Proofs.Pages
import RecordQuery.Proofs.PageCounts
import RecordQuery.Proofs.Where.Places
import RecordQuery.Proofs.Where.Outline
import RecordQuery.Proofs.Where.Steps
import RecordQuery.Proofs.Stores.Shown
import RecordQuery.Proofs.Loading.Agreement
import RecordQuery.Proofs.Reading.Whole
import RecordQuery.Proofs.Writing.Contents
import RecordQuery.Proofs.Writing.Readback
import RecordQuery.Proofs.FilterValues
import RecordQuery.Proofs.Form.Arrival
import RecordQuery.Proofs.Form.Texts
import RecordQuery.Proofs.Membership
import RecordQuery.Proofs.Projections
import RecordQuery.Proofs.Reading.Columns
import RecordQuery.Proofs.Conjunctions
import RecordQuery.Proofs.Decimal.Nearest
import RecordQuery.Proofs.Calendar.Texts
import RecordQuery.Proofs.Numerals
import RecordQuery.Proofs.Decimal.Plain
import RecordQuery.Proofs.Form.Displays
import RecordQuery.Proofs.Form.Patterns
import RecordQuery.Proofs.Form.Retyping
import RecordQuery.Proofs.Relations
import RecordQuery.Proofs.Calendar.Order
import RecordQuery.Proofs.Calendar.Selection
import RecordQuery.Proofs.Form.Conflicts
import RecordQuery.Proofs.Regex
import RecordQuery.Proofs.Wildcards
