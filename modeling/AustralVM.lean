import AustralVM.ReturnCheck
import AustralVM.InstanceCoherence
import AustralVM.BorrowScopes
import AustralVM.CpsAuthorization
import AustralVM.ForLoops
import AustralVM.CaseArms
import AustralVM.CallTargets
import AustralVM.Egress
import AustralVM.HostCommand
import AustralVM.SwapPermissions
import AustralVM.TotalityReach
import AustralVM.CallSiteGoals
import AustralVM.ContractTheory
import AustralVM.RefinedParameters
import AustralVM.CellRelocations
import AustralVM.EvaluationMemo
import AustralVM.AdminTokens
import AustralVM.BooleanValues
import AustralVM.RateLimits
import AustralVM.RefiSnapshots
import AustralVM.TailCalls
import AustralVM.MatchFailures
import AustralVM.DescriptorChains
import AustralVM.VhostReply
import AustralVM.NpuDmaGate
import AustralVM.SignedCells
import AustralVM.HotStoreThreads
import AustralVM.BlueprintFiles
import AustralVM.ConnectionThreads
import AustralVM.DenyFilter
import AustralVM.Regions
import AustralVM.CellSwap
import AustralVM.Why3Goals
import AustralVM.CallCycles
