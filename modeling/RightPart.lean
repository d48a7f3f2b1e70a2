import RightPart.Grammar.Define
import RightPart.Ordered.Queue
import RightPart.Tables.Construct
import RightPart.Tables.Row
import RightPart.Proofs.Ordered.Relation
import RightPart.Proofs.Grammar.Derivation
import RightPart.Proofs.Readahead.Graph
import RightPart.Proofs.Readahead.Automaton
import RightPart.Proofs.Readback.Graph
import RightPart.Proofs.Grammar.Registered
import RightPart.Proofs.Machine.Basic
import RightPart.Proofs.Readback.Completion
import RightPart.Proofs.Readback.Nodes
import RightPart.Proofs.Readahead.Restart
import RightPart.Proofs.Tables.Parser
import RightPart.Proofs.Machine.Parser
import RightPart.Proofs.Machine.Path
import RightPart.Proofs.Machine.Soundness
import RightPart.Proofs.Machine.Progress
import RightPart.Proofs.Ordered.Saturate
import RightPart.Proofs.Grammar.Analysis
import RightPart.Proofs.Grammar.Lookahead
import RightPart.Proofs.Tables.Determinism
import RightPart.Proofs.Machine.Completeness
import RightPart.Proofs.Tables.Choice
import RightPart.Proofs.Readahead.Determinization
import RightPart.Proofs.Tables.Retrace
import RightPart.Proofs.Grammar.Define
import RightPart.Proofs.Machine.Scanner
import RightPart.Proofs.Automaton.Worklist
import RightPart.Proofs.Tables.Lookback
import RightPart.Proofs.Tables.Total
import RightPart.Proofs.Grammar.Nullable
import RightPart.Proofs.Grammar.First
import RightPart.Proofs.Tables.Restart
import RightPart.Proofs.Automaton.Restriction
import RightPart.Proofs.Grammar.Sentential
import RightPart.Proofs.Grammar.Follow
import RightPart.Proofs.Grammar.Merging
import RightPart.Proofs.Grammar.Demotion
import RightPart.Proofs.Automaton.Term
import RightPart.Proofs.Automaton.Letterwise
import RightPart.Proofs.Grammar.Inlining
import RightPart.Proofs.Tables.Redeclaration
import RightPart.Proofs.Automaton.Characters
import RightPart.Proofs.Tables.Conflict
import RightPart.Proofs.Tables.Decoding
import RightPart.Proofs.Grammar.Silence
