import FilterQuery.Main
import FilterQuery.Proofs.Acceptance
import FilterQuery.Proofs.Coherence
import FilterQuery.Proofs.Division
import FilterQuery.Proofs.Exactness
import FilterQuery.Proofs.Export
import FilterQuery.Proofs.Flawless
import FilterQuery.Proofs.Foresight
import FilterQuery.Proofs.Lockstep
import FilterQuery.Proofs.Patchwork
import FilterQuery.Proofs.Presentation
import FilterQuery.Proofs.Repainting
import FilterQuery.Proofs.Replies
import FilterQuery.Proofs.Resumption
import FilterQuery.Proofs.Spelling
import FilterQuery.Proofs.Transcript
import FilterQuery.Proofs.Trimming
import FilterQuery.Proofs.Gaps
import FilterQuery.Proofs.Hints
import FilterQuery.Proofs.Carets
import FilterQuery.Proofs.Renaming
import FilterQuery.Proofs.Validation
import FilterQuery.Proofs.Screens
import FilterQuery.Proofs.Seams
import FilterQuery.Proofs.Arithmetic
