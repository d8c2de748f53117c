import PatternNFA.Inspect
import PatternNFA.Main
import PatternNFA.Proofs.Liveness
import PatternNFA.Proofs.Recycling
import PatternNFA.Proofs.Construction
import PatternNFA.Proofs.Verdicts
import PatternNFA.Proofs.Simulations
import PatternNFA.Proofs.Growth
import PatternNFA.Proofs.Acceptance
import PatternNFA.Proofs.Insertion
import PatternNFA.Proofs.Reports
import PatternNFA.Proofs.Drawings
import PatternNFA.Proofs.Juxtaposition
import PatternNFA.Proofs.Ascent
import PatternNFA.Proofs.Origins
import PatternNFA.Proofs.Returns
import PatternNFA.Proofs.Preorder
import PatternNFA.Proofs.Emission
import PatternNFA.Proofs.Repetition
import PatternNFA.Proofs.Circles
import PatternNFA.Proofs.Negation
import PatternNFA.Proofs.Census
import PatternNFA.Proofs.Trees
import PatternNFA.Proofs.Chains
import PatternNFA.Proofs.Segments
import PatternNFA.Proofs.Sinks
import PatternNFA.Proofs.Interleaving
import PatternNFA.Proofs.Renaming
import PatternNFA.Proofs.Indices
import PatternNFA.Proofs.Prompting
import PatternNFA.Proofs.Multimaps
