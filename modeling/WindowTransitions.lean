import WindowTransitions.Proofs.ActiveTokens
import WindowTransitions.Proofs.Conservation
import WindowTransitions.Proofs.FadeTargets
import WindowTransitions.Proofs.FinalScreen
import WindowTransitions.Proofs.FirstOffers
import WindowTransitions.Proofs.Forms
import WindowTransitions.Proofs.Isolation
import WindowTransitions.Proofs.LastWrites
import WindowTransitions.Proofs.Lockstep
import WindowTransitions.Proofs.Overrides
import WindowTransitions.Proofs.Quiescence
import WindowTransitions.Proofs.ReadyEffects
import WindowTransitions.Proofs.Rehearsals
import WindowTransitions.Proofs.Reordering
import WindowTransitions.Proofs.Rereading
import WindowTransitions.Proofs.Starts
import WindowTransitions.Proofs.Timelines
