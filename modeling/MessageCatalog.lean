import MessageCatalog.ByteOrder
import MessageCatalog.Bytes
import MessageCatalog.Catalog.Basic
import MessageCatalog.Catalog.Header
import MessageCatalog.Catalog.Hash
import MessageCatalog.Catalog.Image
import MessageCatalog.Catalog.Load
import MessageCatalog.Catalog.Metadata
import MessageCatalog.Catalog.Table
import MessageCatalog.Command.Options
import MessageCatalog.Command.Report
import MessageCatalog.Command.Run
import MessageCatalog.Config
import MessageCatalog.Digest.Sha256
import MessageCatalog.Event
import MessageCatalog.Files.Access
import MessageCatalog.Files.Tree
import MessageCatalog.Language
import MessageCatalog.Main
import MessageCatalog.Message.Format
import MessageCatalog.Message.Piece
import MessageCatalog.Plural.Expr
import MessageCatalog.Plural.Forms
import MessageCatalog.Plural.Parse
import MessageCatalog.Plural.Rule
import MessageCatalog.Plural.Token
import MessageCatalog.Resolve
import MessageCatalog.Text.Basic
import MessageCatalog.Text.Escape
import MessageCatalog.Text.Unprintable
import MessageCatalog.Toml.Document
import MessageCatalog.Toml.Lexeme
import MessageCatalog.Toml.Scalar
import MessageCatalog.Toml.Value
import MessageCatalog.Translator
import MessageCatalog.Proofs.Catalog.HashTable
import MessageCatalog.Proofs.ByteOrder
import MessageCatalog.Proofs.Catalog.Decoding
import MessageCatalog.Proofs.Catalog.Search
import MessageCatalog.Proofs.Catalog.Layout
import MessageCatalog.Proofs.Catalog.Build
import MessageCatalog.Proofs.Catalog.Order
import MessageCatalog.Proofs.Catalog.RoundTrip
import MessageCatalog.Proofs.Plural.Grammar
import MessageCatalog.Proofs.Plural.Scanning
import MessageCatalog.Proofs.Plural.Reading
import MessageCatalog.Proofs.Bytes
import MessageCatalog.Proofs.Plural.Bounds
import MessageCatalog.Proofs.Plural.Printing
import MessageCatalog.Proofs.Catalog.Acceptance
import MessageCatalog.Proofs.Catalog.Safety
import MessageCatalog.Proofs.Translator.Query
import MessageCatalog.Proofs.Translator.Session
import MessageCatalog.Proofs.Plural.Repair
import MessageCatalog.Proofs.Plural.Cut
import MessageCatalog.Proofs.Plural.Tidy
import MessageCatalog.Proofs.Plural.Clauses
import MessageCatalog.Proofs.Plural.Forms
import MessageCatalog.Proofs.Plural.Walk
import MessageCatalog.Proofs.Translator.Forms
import MessageCatalog.Proofs.Catalog.Rereading
import MessageCatalog.Proofs.Catalog.Extension
import MessageCatalog.Proofs.Catalog.Swap
import MessageCatalog.Proofs.Catalog.Rebuild
import MessageCatalog.Proofs.Plural.Exact
import MessageCatalog.Proofs.Resolve.Candidates
import MessageCatalog.Proofs.Files.Components
import MessageCatalog.Proofs.Resolve.Confinement
import MessageCatalog.Proofs.Text.Basic
import MessageCatalog.Proofs.Text.Escape
import MessageCatalog.Proofs.Message.Pieces
import MessageCatalog.Proofs.Message.Filling
import MessageCatalog.Proofs.Message.Numbers
import MessageCatalog.Proofs.Digest.Checksum
import MessageCatalog.Proofs.Catalog.Loading
import MessageCatalog.Proofs.Command.Dump
import MessageCatalog.Proofs.Plural.Blanks
import MessageCatalog.Proofs.Plural.Machine
import MessageCatalog.Proofs.Plural.Lookahead
import MessageCatalog.Proofs.Plural.Stages
import MessageCatalog.Proofs.Plural.Simulation
import MessageCatalog.Proofs.Plural.Isolation
import MessageCatalog.Proofs.Plural.Limits
import MessageCatalog.Proofs.Resolve.Normalization
import MessageCatalog.Proofs.Language.Names
import MessageCatalog.Proofs.Catalog.Metadata
import MessageCatalog.Proofs.Text.Decimal
import MessageCatalog.Proofs.Command.Lookup
import MessageCatalog.Proofs.Catalog.Capacity
import MessageCatalog.Proofs.Catalog.HashWidth
import MessageCatalog.Proofs.Catalog.Walk
