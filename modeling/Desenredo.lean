import Desenredo.Lsda.StoredTheorems
import Desenredo.Lsda.CallSiteTheorems
import Desenredo.Lsda.RelocationTheorems
import Desenredo.Lsda.TailTheorems
import Desenredo.Lsda.TypeTheorems
import Desenredo.Lsda.HeaderTheorems
import Desenredo.Cxx.PhaseTheorems
import Desenredo.Cxx.SelectionTheorems
import Desenredo.Rust.ActionTheorems
import Desenredo.Unwind.ExpressionTheorems
import Desenredo.Unwind.FieldTheorems
import Desenredo.Unwind.TraceTheorems
import Desenredo.Unwind.ForceTheorems
import Desenredo.Unwind.ResumeTheorems
import Desenredo.Unwind.DeliveryTheorems
import Desenredo.Unwind.TransferTheorems
import Desenredo.Personality.ProtocolTheorems
import Desenredo.Personality.SiteTheorems
import Desenredo.Personality.TwoPhaseTheorems
import Desenredo.Personality.InstallTheorems
import Desenredo.Panic.ReleaseTheorems
import Desenredo.Personality.ForcedTheorems
import Desenredo.Personality.ScopeTheorems
import Desenredo.Worker.BacktraceTheorems
import Desenredo.Worker.EntryTheorems
import Desenredo.Worker.PanicTheorems
