import QueryViews.Session
import QueryViews.Schema.Verification
import QueryViews.Expr.Occurrences
import QueryViews.Assembly.Document
import QueryViews.Assembly.Source
import QueryViews.Proofs.Closure.Faithful
import QueryViews.Proofs.Renaming.Invariance
import QueryViews.Proofs.Act
import QueryViews.Proofs.Dictionary.Reference
import QueryViews.Proofs.Dictionary.Sound
import QueryViews.Proofs.Dictionary.Replies
import QueryViews.Proofs.Session.Answers
import QueryViews.Proofs.Schema.Pairs
import QueryViews.Proofs.Closure.Names
import QueryViews.Proofs.Text.Hexadecimal
import QueryViews.Proofs.Artifact
import QueryViews.Proofs.Dictionary.Adoption
import QueryViews.Proofs.Dictionary.Holdings
import QueryViews.Proofs.Dictionary.Adopted
import QueryViews.Proofs.Session.RoundTrip
import QueryViews.Proofs.Closure.Short
import QueryViews.Proofs.Dictionary.Merging
import QueryViews.Proofs.Dictionary.Search
import QueryViews.Proofs.Dictionary.Published
import QueryViews.Proofs.Session.History
import QueryViews.Proofs.Dictionary.Calls
import QueryViews.Proofs.Session.Calls
import QueryViews.Proofs.View.ForeignKey
import QueryViews.Proofs.Schema.Changes
import QueryViews.Proofs.Schema.Names
import QueryViews.Proofs.Closure.Named
import QueryViews.Proofs.Closure.Told
import QueryViews.Proofs.View.Text
import QueryViews.Proofs.View.Determined
import QueryViews.Proofs.View.UserDefined
import QueryViews.Proofs.Dictionary.Names
import QueryViews.Proofs.Session.Shipment
import QueryViews.Proofs.Dictionary.Failures
import QueryViews.Proofs.Session.Failures
import QueryViews.Proofs.Schema.Resolved
import QueryViews.Proofs.Members.Embedding
import QueryViews.Proofs.Members.Matters
import QueryViews.Proofs.Closure.Closed
import QueryViews.Proofs.Schema.Models
import QueryViews.Proofs.Schema.Roots
import QueryViews.Proofs.View.Keyed
import QueryViews.Proofs.Schema.Links
import QueryViews.Proofs.Closure.Defined
import QueryViews.Proofs.View.Links
import QueryViews.Proofs.Schema.Dangling
import QueryViews.Proofs.Schema.Routing
import QueryViews.Proofs.Schema.Inheritance
import QueryViews.Proofs.Members.Endless
import QueryViews.Proofs.Dictionary.Looks
import QueryViews.Proofs.Session.Scans
import QueryViews.Proofs.Closure.Least
import QueryViews.Proofs.View.Rivals
import QueryViews.Proofs.Text.Quoted
import QueryViews.Proofs.Text.Tokens
import QueryViews.Proofs.Closure.Reworded
import QueryViews.Proofs.View.Phrase
import QueryViews.Proofs.View.Spelling
import QueryViews.Proofs.View.Reading
import QueryViews.Proofs.View.Unambiguous
import QueryViews.Proofs.View.Conjunction
import QueryViews.Proofs.Closure.Text
import QueryViews.Proofs.Memo.Client
import QueryViews.Proofs.Session.Warnings
import QueryViews.Proofs.View.Occurrences
import QueryViews.Proofs.View.Normal
import QueryViews.Proofs.Schema.Inherited
import QueryViews.Proofs.Schema.Growth
import QueryViews.Proofs.Schema.Issued
import QueryViews.Proofs.View.Literal
import QueryViews.Proofs.Assembly.Source
import QueryViews.Proofs.Dictionary.Repeated
