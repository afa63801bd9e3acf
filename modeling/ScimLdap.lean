import ScimLdap.Filter.Sink
import ScimLdap.Json.Reader
import ScimLdap.Main
import ScimLdap.Pool
import ScimLdap.Proofs.Flattening
import ScimLdap.Proofs.Meaning
import ScimLdap.Proofs.Prefixes
import ScimLdap.Proofs.Requests
import ScimLdap.Proofs.Respelling
import ScimLdap.Proofs.Rfc4514
import ScimLdap.Proofs.Tiling
import ScimLdap.Proofs.Locations
import ScimLdap.Proofs.Support
import ScimLdap.Proofs.Overlay
import ScimLdap.Proofs.ClientErrors
import ScimLdap.Proofs.Limits
import ScimLdap.Proofs.Sorting
import ScimLdap.Proofs.Defaults
import ScimLdap.Proofs.References
import ScimLdap.Proofs.Reporting
import ScimLdap.Proofs.Magnitudes
import ScimLdap.Proofs.Histories
import ScimLdap.Proofs.Listing
import ScimLdap.Proofs.Completions
import ScimLdap.Proofs.Literals
import ScimLdap.Proofs.CommaLists
import ScimLdap.Proofs.Records
