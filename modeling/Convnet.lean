import Convnet.Main
import Convnet.Proofs.Checked
import Convnet.Proofs.Derivative
import Convnet.Proofs.Mean
import Convnet.Proofs.Reload
import Convnet.Proofs.Samples
import Convnet.Proofs.Loading
import Convnet.Proofs.Stopping
import Convnet.Proofs.Trained
import Convnet.Proofs.Draws
import Convnet.Proofs.Observers
import Convnet.Proofs.Predicting
import Convnet.Proofs.Reporting
import Convnet.Proofs.Settings
import Convnet.Proofs.Correlation
import Convnet.Proofs.Softmax
import Convnet.Proofs.Nonfinite
import Convnet.Proofs.Precedence
import Convnet.Proofs.Adjoint
import Convnet.Proofs.Selection
import Convnet.Proofs.Averages
import Convnet.Proofs.Momentum
import Convnet.Proofs.Divisors
import Convnet.Proofs.Gradient
import Convnet.Proofs.Interposed
import Convnet.Proofs.Masks
import Convnet.Proofs.Confusion
import Convnet.Proofs.Splits
import Convnet.Proofs.Standardizing
import Convnet.Proofs.Records
import Convnet.Proofs.SmallCnn
import Convnet.Proofs.Line
import Convnet.Proofs.Clipping
import Convnet.Proofs.Panels
import Convnet.Proofs.Lettering
import Convnet.Proofs.Summary
import Convnet.Proofs.Axis
import Convnet.Proofs.Products
