import Corkboard.Desk.Session
import Corkboard.Main
import Corkboard.Inquiries
import Corkboard.Proofs.Desk.Calls
import Corkboard.Proofs.Api.Chronicle
import Corkboard.Proofs.History.Snapshots
import Corkboard.Proofs.Search.Newest
import Corkboard.Editing
import Corkboard.Proofs.Editor.Saves
import Corkboard.Proofs.Desk.Rewrites
import Corkboard.Proofs.Desk.Compositions
import Corkboard.Proofs.Editor.States
import Corkboard.Proofs.Editor.Typing
import Corkboard.Proofs.Desk.Entry
import Corkboard.Proofs.Api.Refusals
import Corkboard.Proofs.Api.Frames
import Corkboard.Proofs.Api.Commuting
import Corkboard.Proofs.Api.Empties
import Corkboard.Proofs.Json.Records
import Corkboard.Proofs.Api.Answers
import Corkboard.Proofs.Api.Templates
import Corkboard.Proofs.Api.Staleness
import Corkboard.Proofs.Store.Faults
import Corkboard.Proofs.Content.Choices
import Corkboard.Proofs.Property.Saving
import Corkboard.Proofs.Property.Keys
import Corkboard.Proofs.Property.Labels
import Corkboard.Proofs.Property.Blanks
import Corkboard.Proofs.Api.Conflicts
import Corkboard.Proofs.Property.Addresses
import Corkboard.Proofs.Property.Calculations
import Corkboard.Proofs.Search.Titles
import Corkboard.Proofs.Desk.Groupings
import Corkboard.Proofs.Editor.Checkboxes
import Corkboard.Proofs.Desk.Focus
import Corkboard.Proofs.Api.Returned
import Corkboard.Proofs.Registrations
