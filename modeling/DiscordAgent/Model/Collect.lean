import DiscordAgent.Model.Database

/-!
# Waiting for jobs

`_collect_wait` of `orchestrator.py`. The rounds of its loop are a list: what each
of them reads. What the command prints is left out.
-/

namespace DiscordAgent

namespace Orchestrator

end Orchestrator

end DiscordAgent
