import SpringQL.Error
import SpringQL.Pipeline.Model
import SpringQL.Pipeline.Invariants
import SpringQL.Host
import SpringQL.Petgraph
import SpringQL.QuerySubtask.Run
import SpringQL.QuerySubtask.Termination
import SpringQL.QuerySubtask.Chain
import SpringQL.QuerySubtask.Metrics
import SpringQL.Row
import SpringQL.Executor
