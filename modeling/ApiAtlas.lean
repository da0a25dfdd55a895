import ApiAtlas.Derive.Item
import ApiAtlas.Derive.TokenTree.Lexer
import ApiAtlas.Document.Assembly
import ApiAtlas.Rendering.Session
import ApiAtlas.Settings
import ApiAtlas.Proofs.Identity
import ApiAtlas.Proofs.Flattening
import ApiAtlas.Proofs.Slices
import ApiAtlas.Proofs.Reachability
import ApiAtlas.Proofs.ComponentSet
import ApiAtlas.Proofs.Assembly
import ApiAtlas.Proofs.Derivation
import ApiAtlas.Proofs.Provenance
import ApiAtlas.Proofs.Roots
import ApiAtlas.Proofs.References
import ApiAtlas.Proofs.Unfolding
import ApiAtlas.Proofs.InsertionOrder
import ApiAtlas.Proofs.Failures
import ApiAtlas.Document.Session
import ApiAtlas.Proofs.Sessions
import ApiAtlas.Proofs.Slots
import ApiAtlas.Proofs.Selection
import ApiAtlas.Proofs.Registries
import ApiAtlas.Proofs.WellFormed
import ApiAtlas.Proofs.SchemaMaps
import ApiAtlas.Proofs.Correspondence
import ApiAtlas.Proofs.CorrespondingDocuments
import ApiAtlas.Proofs.ComposedRules
import ApiAtlas.Proofs.Redeclaration
import ApiAtlas.Proofs.Wrapping
import ApiAtlas.Proofs.PrivateFields
import ApiAtlas.Proofs.FlatteningChains
import ApiAtlas.Proofs.Grounding
import ApiAtlas.Proofs.BoundedExpansion
import ApiAtlas.Proofs.InlineExpansion
import ApiAtlas.Proofs.TagPrecedence
import ApiAtlas.Proofs.ParameterStructs
import ApiAtlas.Proofs.IdentifierWords
import ApiAtlas.Proofs.Splicing
import ApiAtlas.Proofs.DataTypeRoots
import ApiAtlas.Proofs.Histories
import ApiAtlas.Proofs.ExpansionPath
import ApiAtlas.Proofs.Newtypes
import ApiAtlas.Proofs.ObjectProperties
import ApiAtlas.Proofs.Overwriting
import ApiAtlas.Proofs.ExtendedBuiltins
import ApiAtlas.Proofs.Responses
import ApiAtlas.Proofs.TypedValues
import ApiAtlas.Proofs.AttributeHistories
import ApiAtlas.Proofs.Renaming
import ApiAtlas.Proofs.Fallbacks
