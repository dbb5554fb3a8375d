import SqlDialect.Main
import SqlDialect.Proofs.Boundaries
import SqlDialect.Proofs.Calendar
import SqlDialect.Proofs.Conditions
import SqlDialect.Proofs.Connections
import SqlDialect.Proofs.Delegation
import SqlDialect.Proofs.Documents
import SqlDialect.Proofs.DoubledQuotes
import SqlDialect.Proofs.Encoding
import SqlDialect.Proofs.Filters
import SqlDialect.Proofs.FormatCalls
import SqlDialect.Proofs.Forms
import SqlDialect.Proofs.Grouping
import SqlDialect.Proofs.Masks
import SqlDialect.Proofs.OpenQuotes
import SqlDialect.Proofs.Operands
import SqlDialect.Proofs.Placeholders
import SqlDialect.Proofs.PlainStatements
import SqlDialect.Proofs.Registrations
import SqlDialect.Proofs.Rendering
import SqlDialect.Proofs.Rewrites
import SqlDialect.Proofs.Scheduling
import SqlDialect.Proofs.SetList
import SqlDialect.Proofs.Settling
import SqlDialect.Proofs.TableDefinitions
import SqlDialect.Proofs.TableNames
import SqlDialect.Proofs.Tokens
import SqlDialect.Proofs.TreeText
import SqlDialect.Proofs.TypeTags
import SqlDialect.Proofs.Warnings
import SqlDialect.Proofs.Words
import SqlDialect.Tree.Encode
import SqlDialect.Warehouse.Introspection
import SqlDialect.Proofs.Walks
