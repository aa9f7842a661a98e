import CpkProvenance.Archive.Basic
import CpkProvenance.Archive.Jar
import CpkProvenance.Archive.Signable
import CpkProvenance.Bytes
import CpkProvenance.Bytes.Base64
import CpkProvenance.Bytes.Utf8
import CpkProvenance.CommandLine.Arguments
import CpkProvenance.CommandLine.Command
import CpkProvenance.CommandLine.Report
import CpkProvenance.CommandLine.Run
import CpkProvenance.Der.Element
import CpkProvenance.Der.Value
import CpkProvenance.Digest.Algorithm
import CpkProvenance.Digest.Construction
import CpkProvenance.Digest.Sha1
import CpkProvenance.Digest.Sha256
import CpkProvenance.Digest.Sha512
import CpkProvenance.Digest.Words
import CpkProvenance.Document.Basic
import CpkProvenance.Document.Graph
import CpkProvenance.Document.Json
import CpkProvenance.Document.Reader
import CpkProvenance.Document.Writer
import CpkProvenance.Failure
import CpkProvenance.FileTree
import CpkProvenance.Generation.Constraints
import CpkProvenance.Generation.Dependencies
import CpkProvenance.Generation.Output
import CpkProvenance.Json
import CpkProvenance.Main
import CpkProvenance.Manifest.Attributes
import CpkProvenance.Manifest.Basic
import CpkProvenance.Manifest.Digests
import CpkProvenance.Manifest.Line
import CpkProvenance.Maven.Coordinate
import CpkProvenance.Maven.PackageUrl
import CpkProvenance.Maven.Pom
import CpkProvenance.OrderedSet
import CpkProvenance.Path
import CpkProvenance.Proofs.Archive.Coverage
import CpkProvenance.Proofs.Archive.CoverageAgreement
import CpkProvenance.Proofs.Archive.EntryDigests
import CpkProvenance.Proofs.Archive.ExemptNames
import CpkProvenance.Proofs.Archive.LeafSets
import CpkProvenance.Proofs.Archive.LoadedFiles
import CpkProvenance.Proofs.Archive.ManifestSigners
import CpkProvenance.Proofs.Archive.Opening
import CpkProvenance.Proofs.Archive.Profile
import CpkProvenance.Proofs.Archive.SignatureFiles
import CpkProvenance.Proofs.Archive.SignerCompleteness
import CpkProvenance.Proofs.Archive.SignerSoundness
import CpkProvenance.Proofs.Bytes.Base64
import CpkProvenance.Proofs.Bytes.StandardForm
import CpkProvenance.Proofs.Bytes.Utf8
import CpkProvenance.Proofs.Digest.Reads
import CpkProvenance.Proofs.Digest.Spelling
import CpkProvenance.Proofs.Digest.Stream
import CpkProvenance.Proofs.Document.ConstraintGrammar
import CpkProvenance.Proofs.Document.ConstraintRoundTrip
import CpkProvenance.Proofs.Document.DependencyGrammar
import CpkProvenance.Proofs.Document.Grammar
import CpkProvenance.Proofs.Document.Graph
import CpkProvenance.Proofs.Document.GraphRun
import CpkProvenance.Proofs.Document.JsonText
import CpkProvenance.Proofs.Document.Normalization
import CpkProvenance.Proofs.Document.Reader
import CpkProvenance.Proofs.Document.RemoteArchive
import CpkProvenance.Proofs.Document.RootNamespace
import CpkProvenance.Proofs.Document.RoundTrip
import CpkProvenance.Proofs.Document.Written
import CpkProvenance.Proofs.Document.WrittenElements
import CpkProvenance.Proofs.FileTree
import CpkProvenance.Proofs.Generation.AllOrNothing
import CpkProvenance.Proofs.Generation.Composition
import CpkProvenance.Proofs.Generation.Constraints
import CpkProvenance.Proofs.Generation.LibraryFiles
import CpkProvenance.Proofs.Json
import CpkProvenance.Proofs.Manifest.Digests
import CpkProvenance.Proofs.Manifest.Grammar
import CpkProvenance.Proofs.Manifest.Headers
import CpkProvenance.Proofs.Manifest.Lines
import CpkProvenance.Proofs.Manifest.Spans
import CpkProvenance.Proofs.Manifest.WellFormed
import CpkProvenance.Proofs.Maven.Coordinate
import CpkProvenance.Proofs.Maven.PackageUrl
import CpkProvenance.Proofs.Maven.Pom
import CpkProvenance.Proofs.OrderedSet
import CpkProvenance.Proofs.Path
import CpkProvenance.Proofs.Signing.BlockSigners
import CpkProvenance.Proofs.Signing.CertificateOrder
import CpkProvenance.Proofs.Signing.CertificatePath
import CpkProvenance.Proofs.Signing.Leaf
import CpkProvenance.Proofs.Text.Blank
import CpkProvenance.Proofs.Text.Case
import CpkProvenance.Proofs.Text.Cut
import CpkProvenance.Proofs.Traced
import CpkProvenance.Proofs.Xml.Content
import CpkProvenance.Proofs.Xml.Escape
import CpkProvenance.Proofs.Xml.Written
import CpkProvenance.Proofs.Xml.WrittenTag
import CpkProvenance.Signing.Block
import CpkProvenance.Signing.Certificate
import CpkProvenance.Signing.SignerSet
import CpkProvenance.Text.Ascii
import CpkProvenance.Text.Blank
import CpkProvenance.Text.Cut
import CpkProvenance.Text.Printable
import CpkProvenance.Text.Quoted
import CpkProvenance.Traced
import CpkProvenance.Update
import CpkProvenance.X509.Certificate
import CpkProvenance.X509.Name
import CpkProvenance.Xml.Content
import CpkProvenance.Xml.Escape
import CpkProvenance.Xml.Event
import CpkProvenance.Xml.Layout
import CpkProvenance.Xml.Markup
import CpkProvenance.Xml.Tag
import CpkProvenance.Zip.Archive
import CpkProvenance.Zip.CodePage
import CpkProvenance.Zip.Crc32
import CpkProvenance.Zip.Fault
import CpkProvenance.Zip.Inflate
import CpkProvenance.Zip.Record
