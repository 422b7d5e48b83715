import ActionCatalogue.Main
import ActionCatalogue.Piece.Adapter
import ActionCatalogue.Proofs.ActionLabels
import ActionCatalogue.Proofs.Aggregation
import ActionCatalogue.Proofs.AllowList
import ActionCatalogue.Proofs.BodyFields
import ActionCatalogue.Proofs.BuildReports
import ActionCatalogue.Proofs.Collision
import ActionCatalogue.Proofs.CycleSafety
import ActionCatalogue.Proofs.DocumentPaths
import ActionCatalogue.Proofs.DocumentRoundTrip
import ActionCatalogue.Proofs.DynamicProperties
import ActionCatalogue.Proofs.Enumerations
import ActionCatalogue.Proofs.ExactNormalization
import ActionCatalogue.Proofs.ExpandedValues
import ActionCatalogue.Proofs.Inlining
import ActionCatalogue.Proofs.LabelResolution
import ActionCatalogue.Proofs.LeftoverReferences
import ActionCatalogue.Proofs.LenientBuild
import ActionCatalogue.Proofs.ManifestCatalogue
import ActionCatalogue.Proofs.ManifestProvision
import ActionCatalogue.Proofs.ManifestValidity
import ActionCatalogue.Proofs.NamingConventions
import ActionCatalogue.Proofs.NormalFixedPoint
import ActionCatalogue.Proofs.Nullability
import ActionCatalogue.Proofs.OperationErrors
import ActionCatalogue.Proofs.OperationFaults
import ActionCatalogue.Proofs.OperationReferences
import ActionCatalogue.Proofs.OperationRoutes
import ActionCatalogue.Proofs.ParameterOptions
import ActionCatalogue.Proofs.PieceMapping
import ActionCatalogue.Proofs.Pointers
import ActionCatalogue.Proofs.Registration
import ActionCatalogue.Proofs.Requirements
import ActionCatalogue.Proofs.ResolutionStack
import ActionCatalogue.Proofs.StrictBuild
import ActionCatalogue.Proofs.SwaggerPathTexts
import ActionCatalogue.Proofs.TypeRoundTrip
import ActionCatalogue.Proofs.UrlPlaceholders
import ActionCatalogue.Proofs.VisibleVariables
import ActionCatalogue.Proofs.WellFormedDescriptions
import ActionCatalogue.Proofs.WordCuts
