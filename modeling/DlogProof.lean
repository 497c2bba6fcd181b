import DlogProof.Binary.Forms
import DlogProof.Entropy.Script
import DlogProof.Json.Forms
import DlogProof.Keygen.Finalize
import DlogProof.Proofs.Completeness
import DlogProof.Proofs.Soundness
import DlogProof.Proofs.Fault
import DlogProof.Proofs.Pool
import DlogProof.Proofs.Finalize
import DlogProof.Proofs.Schedule
import DlogProof.Proofs.ByteParts
import DlogProof.Proofs.Acceptance
import DlogProof.Proofs.Blame
import DlogProof.Proofs.Framing
import DlogProof.Proofs.Agreement
import DlogProof.Proofs.Generation
import DlogProof.Proofs.HonestRound
import DlogProof.Proofs.AcceptedRound
import DlogProof.Proofs.Transcript
import DlogProof.Proofs.Padding
import DlogProof.Proofs.BinaryForm
import DlogProof.Proofs.JsonForm
import DlogProof.Proofs.Transport
import DlogProof.Proofs.LocalParams
import DlogProof.Proofs.Decoding
import DlogProof.Proofs.Malleability
import DlogProof.Proofs.ResidueSubgroup
import DlogProof.Proofs.NormalForm
import DlogProof.Proofs.Uniformity
import DlogProof.Proofs.ExactRun
import DlogProof.Proofs.Encodings
import DlogProof.Proofs.ExponentSearch
import DlogProof.Proofs.Hiding
import DlogProof.Proofs.HonestGeneration
import DlogProof.Proofs.Unpacking
import DlogProof.Proofs.FullPowers
