import ApiRoutes.Main
import ApiRoutes.Proofs.Route.Again
import ApiRoutes.Proofs.Route.Completeness
import ApiRoutes.Proofs.Route.Preservation
import ApiRoutes.Proofs.Route.Rendering
import ApiRoutes.Proofs.Route.Uniqueness
import ApiRoutes.Proofs.Script.Entries
import ApiRoutes.Proofs.Script.Blocks
import ApiRoutes.Proofs.Script.Declarations
import ApiRoutes.Proofs.Disk.Writing
import ApiRoutes.Proofs.Project.Generation
import ApiRoutes.Proofs.Script.Words
import ApiRoutes.Proofs.Script.Comments
import ApiRoutes.Proofs.Script.Readings
import ApiRoutes.Proofs.Script.Survival
import ApiRoutes.Proofs.Route.Hidden
import ApiRoutes.Proofs.Script.Bodies
import ApiRoutes.Proofs.Script.Functions
import ApiRoutes.Proofs.Script.RoundTrip
import ApiRoutes.Proofs.Inspection
import ApiRoutes.Proofs.Project.AllOrNothing
import ApiRoutes.Proofs.Project.DryRun
import ApiRoutes.Proofs.Project.Isolation
import ApiRoutes.Proofs.Project.SecondRun
import ApiRoutes.Proofs.Project.Footprint
import ApiRoutes.Proofs.Script.Data
import ApiRoutes.Proofs.Project.Registration
import ApiRoutes.Proofs.Route.EndpointParameters
import ApiRoutes.Proofs.Route.MethodParameters
import ApiRoutes.Proofs.Route.FieldsRead
import ApiRoutes.Proofs.Route.Recognition
import ApiRoutes.Proofs.Route.Remarks
import ApiRoutes.Proofs.Route.Stops
import ApiRoutes.Proofs.Spec.BadDocuments
import ApiRoutes.Proofs.Script.StringTokens
import ApiRoutes.Proofs.Script.StringValues
import ApiRoutes.Proofs.Project.File
import ApiRoutes.Proofs.Project.Manifest
import ApiRoutes.Proofs.Disk.Atomicity
import ApiRoutes.Proofs.Script.Attachment
import ApiRoutes.Proofs.Script.KeptLines
