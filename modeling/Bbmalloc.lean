import Bbmalloc.Buddy.Containment
import Bbmalloc.Buddy.LinkChecks
import Bbmalloc.Buddy.Resizing
import Bbmalloc.Region.Profiles
import Bbmalloc.Tlsf.Runs
import Bbmalloc.World.Regions
import Bbmalloc.World.Gauges
import Bbmalloc.World.Clients
import Bbmalloc.World.Growth
import Bbmalloc.World.Locality
import Bbmalloc.World.Placement
import Bbmalloc.World.Reports
import Bbmalloc.World.Safety
import Bbmalloc.World.Alignment
import Bbmalloc.World.Redzones
import Bbmalloc.World.Statistics
