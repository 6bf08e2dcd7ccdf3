import StpLang.Edit
import StpLang.Main
import StpLang.Proofs.Adjacency
import StpLang.Proofs.Append
import StpLang.Proofs.Bookkeeping
import StpLang.Proofs.Command
import StpLang.Proofs.Comments
import StpLang.Proofs.Counters
import StpLang.Proofs.Delimiters
import StpLang.Proofs.Diagnostics
import StpLang.Proofs.ErrorComments
import StpLang.Proofs.ErrorPlaces
import StpLang.Proofs.Grouping
import StpLang.Proofs.Height
import StpLang.Proofs.Layout
import StpLang.Proofs.Limit
import StpLang.Proofs.Longest
import StpLang.Proofs.LoopControl
import StpLang.Proofs.OpenDelimiters
import StpLang.Proofs.Reformat
import StpLang.Proofs.Render.Document
import StpLang.Proofs.Render.Emitter
import StpLang.Proofs.Render.Parsed
import StpLang.Proofs.Reparse
import StpLang.Proofs.Returns
import StpLang.Proofs.RoundTrip
import StpLang.Proofs.Schema
import StpLang.Proofs.Segmentation
import StpLang.Proofs.Session
import StpLang.Proofs.Spans
import StpLang.Proofs.Stepwise
import StpLang.Proofs.Underline
