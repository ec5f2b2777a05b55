import OpenCut.Repository.Snapshots
import OpenCut.Repository.Apply
import OpenCut.Render.Draft
import OpenCut.Engine.Compositor
import OpenCut.Engine.Settle
import OpenCut.Sidecar.RuntimeHost
import OpenCut.Work.Scheduler
import OpenCut.Launcher.Handoff
import OpenCut.Update.Undisturbed
import OpenCut.Agent.Stops
import OpenCut.Repository.Decisions
import OpenCut.Repository.Updates
import OpenCut.Repository.ClipMoves
import OpenCut.Engine.SourceMap
import OpenCut.Domain.Instants
import OpenCut.Update.Links
import OpenCut.Client.Projects
import OpenCut.Client.ServerEvents
