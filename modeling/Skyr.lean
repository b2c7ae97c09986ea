import Skyr.Api.Reservations
import Skyr.AuthToken
import Skyr.Cdb.DeletedRef
import Skyr.Container.Hosts
import Skyr.Container.Images
import Skyr.Container.Ranges
import Skyr.Container.Tombstones
import Skyr.De.Daemon
import Skyr.De.Lingering
import Skyr.Delivery
import Skyr.Ias.Signins
import Skyr.Ids.Entities
import Skyr.Ne.Batcher
import Skyr.Ne.Once
import Skyr.Overlay.Spread
import Skyr.Rdb.Columns
import Skyr.Re.Idempotence
import Skyr.Re.Routing
import Skyr.Re.Watchdog
import Skyr.Rte.PartialCreate
import Skyr.Rte.Settlements
import Skyr.Sclc.Asg
import Skyr.Sclc.CrossRepo
import Skyr.Sclc.Dicts
import Skyr.Sclc.Forward
import Skyr.Sclc.Frames
import Skyr.Sclc.Groups
import Skyr.Sclc.Halting
import Skyr.Sclc.Integers
import Skyr.Sclc.Origins
import Skyr.Sclc.Paths
import Skyr.Sclc.Scoping
import Skyr.Sclc.Strings
import Skyr.Sclc.Time
import Skyr.Scs.UploadPack
import Skyr.Udb.Members
